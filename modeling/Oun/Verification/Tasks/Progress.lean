import Oun.Model.Operations
import Oun.Verification.Sessions.Questions
import Oun.Verification.Tasks.Writes

/-! # The progress of an operation

An operation reads documents of its task only, so that what it will write is known from
the store in which both operations started. -/

namespace Oun

open Firestore Regex

/-- What the operation writes if it runs alone. -/
def Operation.writes (s : Store) : Operation → List Write
  | offer uid furniture price =>
      if hasOffered (s.offers.whereEqualTo Offer.task furniture.id) uid then
        (addOffer furniture uid price.val).map Call.write
      else []
  | accept _ taskId item =>
      (Oun.accept taskId item (s.offers.whereEqualTo Offer.task taskId)).map Call.write
  | reject _ taskId item => (Oun.reject taskId item).map Call.write
  | report uid furniture reason =>
      if noReported (s.violations.whereEqualTo Violation.taskId furniture.id) uid then
        (Oun.report furniture uid reason).map Call.write
      else []

/-- The offer of a confirmed Reject was stored before, and under its task if it still is. -/
def Operation.Addressed (s : Store) : Operation → Prop
  | reject _ taskId item => item.offerId < s.offers.next ∧
      ∀ d ∈ s.offers.docs, d.id = item.offerId → d.data.task = taskId
  | _ => True

theorem Operation.writes_on {s : Store} {op : Operation} (h : op.Addressed s) :
    ∀ w ∈ op.writes s, w.On s op.task := by
  cases op with
  | offer uid furniture price =>
      simp only [writes]
      split
      · simp [addOffer, Write.On, task]
      · simp
  | accept uid taskId item =>
      intro w hw
      obtain ⟨c, hc, rfl⟩ := List.mem_map.mp hw
      obtain ⟨x, hx, hcall⟩ := mem_accept.mp hc
      obtain ⟨hstored, htask⟩ := (s.offers.mem_whereEqualTo _ _ x).mp hx
      rcases hcall with ⟨-, rfl | rfl⟩ | ⟨-, rfl⟩
      · refine ⟨s.offers.fresh x hstored, fun d hd hid => ?_⟩
        rw [s.offers.eq_of_id_eq hd hstored hid]
        exact htask
      · rfl
      · rfl
  | reject uid taskId item =>
      simp only [writes, Oun.reject, List.map_cons, List.map_nil, List.forall_mem_cons,
        List.not_mem_nil, false_implies, implies_true, and_true]
      exact ⟨h, rfl⟩
  | report uid furniture reason =>
      simp only [writes]
      split
      · simp [Oun.report, Write.On, task]
      · simp

/-- Where an operation that started from `s` can be, and what it has written by then. -/
inductive Progress (s : Store) : Operation → Multiset Write → Handler → Prop where
  | hasOffered (uid furniture price) :
      Progress s (.offer uid furniture price) 0 (.hasOffered furniture)
  | offerDialog (uid furniture price)
      (h : Oun.hasOffered (s.offers.whereEqualTo Offer.task furniture.id) uid = true) :
      Progress s (.offer uid furniture price) 0 (.offerDialog furniture)
  | acceptDialog (uid taskId item) :
      Progress s (.accept uid taskId item) 0 (.acceptDialog taskId item)
  | acceptGet (uid taskId item) :
      Progress s (.accept uid taskId item) 0 (.acceptGet taskId item)
  | rejectDialog (uid taskId item) :
      Progress s (.reject uid taskId item) 0 (.rejectDialog taskId item)
  | noReported (uid furniture reason) :
      Progress s (.report uid furniture reason) 0 (.noReported furniture)
  | reportDialog (uid furniture reason)
      (h : Oun.noReported (s.violations.whereEqualTo Violation.taskId furniture.id) uid = true) :
      Progress s (.report uid furniture reason) 0 (.reportDialog furniture)
  | refused {op} (h : op.writes s = []) : Progress s op 0 .done
  | writing {op job done calls}
      (h : done + ↑(calls.map Call.write) = (↑(op.writes s) : Multiset Write)) :
      Progress s op done (.writing job calls)

theorem Progress.start (s : Store) (op : Operation) : Progress s op 0 op.start := by
  cases op <;> constructor

/-- An input moves an operation on as it would in the store it started from. -/
theorem Progress.input {s s' : Store} {op : Operation} {done : Multiset Write}
    {handler : Handler} {input : Input} (h : Progress s op done handler)
    (hsame : done = 0 → SameOnTask op.task s s') (hcan : op.Can s' handler (.input input)) :
    Progress s op done (handler.next op.uid input) := by
  obtain ⟨henters, henabled⟩ := hcan
  have hmoves := moves op.uid henabled
  generalize handler.next op.uid input = next at hmoves ⊢
  generalize handler.issued op.uid input = issued at hmoves
  cases hmoves with
  | offerAllowed furniture documents hdocuments hnone =>
      cases h with
      | hasOffered uid _ price =>
          refine .offerDialog uid furniture price ?_
          rw [← hasOffered_perm ((hsame rfl).offers ▸ hdocuments) uid]
          exact hnone
  | offerRefused furniture documents hdocuments hsome =>
      cases h with
      | hasOffered uid _ price =>
          refine .refused ?_
          have hs : Oun.hasOffered (s.offers.whereEqualTo Offer.task furniture.id) uid = false :=
            (hasOffered_perm ((hsame rfl).offers ▸ hdocuments) uid).symm.trans hsome
          simp [Operation.writes, hs]
  | offer furniture price =>
      cases h with
      | offerDialog uid _ _ hs =>
          obtain rfl := henters
          exact .writing (by simp [Operation.writes, hs, Operation.uid])
  | confirmAccept taskId item =>
      cases h with
      | acceptDialog uid => exact .acceptGet uid taskId item
  | accept taskId item documents hdocuments =>
      cases h with
      | acceptGet uid =>
          refine .writing ?_
          rw [Multiset.zero_add, Operation.writes, Multiset.coe_eq_coe]
          exact (List.Perm.flatMap_right _ ((hsame rfl).offers ▸ hdocuments)).map _
  | reject taskId item =>
      cases h with
      | rejectDialog uid => exact .writing (by simp [Operation.writes])
  | reportAllowed furniture documents hdocuments hnone =>
      cases h with
      | noReported uid _ reason =>
          refine .reportDialog uid furniture reason ?_
          rw [← noReported_perm ((hsame rfl).violations ▸ hdocuments) uid]
          exact hnone
  | reportRefused furniture documents hdocuments hsome =>
      cases h with
      | noReported uid _ reason =>
          refine .refused ?_
          have hs : Oun.noReported (s.violations.whereEqualTo Violation.taskId furniture.id) uid =
              false :=
            (noReported_perm ((hsame rfl).violations ▸ hdocuments) uid).symm.trans hsome
          simp [Operation.writes, hs]
  | report furniture reason =>
      cases h with
      | reportDialog uid _ _ hs =>
          obtain rfl := henters
          exact .writing (by simp [Operation.writes, hs, Operation.uid])
  | rate => cases h
  | dismiss => cases op <;> exact henters.elim

/-- The next write of an operation is one of those it writes when it runs alone. -/
theorem Progress.write {s : Store} {op : Operation} {done : Multiset Write} {job : Job}
    {call : Call} {calls : List Call} (h : Progress s op done (.writing job (call :: calls))) :
    call.write ∈ op.writes s ∧ Progress s op (call.write ::ₘ done) (.writing job calls) := by
  cases h with
  | writing h =>
      constructor
      · rw [← Multiset.mem_coe, ← h]
        simp
      · refine .writing ?_
        rw [← h]
        simp [Multiset.cons_add, Multiset.add_cons, ← Multiset.cons_coe]

/-- A finished operation has written all it writes when it runs alone. -/
theorem Progress.finished {s : Store} {op : Operation} {done : Multiset Write}
    {handler : Handler} (h : Progress s op done handler) (hfinished : handler.Finished) :
    done = ↑(op.writes s) := by
  cases h with
  | refused h => rw [h]; rfl
  | @writing _ _ _ calls h =>
      cases calls with
      | nil => simpa using h
      | cons => exact hfinished.elim
  | _ => exact hfinished.elim

end Oun
