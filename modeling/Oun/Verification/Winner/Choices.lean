import Oun.Verification.Sessions.Accounting

/-! # The choices of Accept handlers

An Accept handler that finds its offer among the documents it reads will write one
`accepted` notification, and no other handler writes any. -/

namespace Oun

open Firestore Regex Transition

def acceptedOn (t : DocId) (n : Notif) : Bool :=
  decide (n.task = t) && decide (n.status = .accepted)

/-- The notifications with status `accepted` for a task. -/
def winners (s : Store) (t : DocId) : ℕ :=
  s.notifs.count (acceptedOn t)

/-- The task and the offer of an Accept handler whose query is answered in this action
with its offer among the documents. -/
def chosen (w : World) : Action → Option (DocId × Item)
  | .process k (.offers documents) =>
      match w.processes[k]? with
      | some ⟨_, .acceptGet taskId item⟩ =>
          if item.offerId ∈ documents.map Doc.id then some (taskId, item) else none
      | _ => none
  | _ => none

theorem chosen_of_not_process {w : World} {a : Action}
    (h : ∀ k input, a ≠ .process k input) : chosen w a = none := by
  cases a with
  | process k input => exact absurd rfl (h k input)
  | _ => rfl

theorem countP_id_eq {α : Type*} {documents : List (Doc α)} (h : (documents.map Doc.id).Nodup)
    (id : DocId) :
    documents.countP (fun d => decide (d.id = id)) =
      if id ∈ documents.map Doc.id then 1 else 0 := by
  have hcount : documents.countP (fun d => decide (d.id = id)) =
      (documents.map Doc.id).count id := by
    rw [List.count, List.countP_map]
    exact List.countP_congr (by simp)
  rw [hcount]
  split
  · exact List.count_eq_one_of_mem h ‹_›
  · exact List.count_eq_zero_of_not_mem ‹_›

/-- The loop of Accept issues one `accepted` notification for each document with the
chosen id. -/
theorem countP_accept (t taskId : DocId) (item : Item) (documents : List (Doc Offer)) :
    (accept taskId item documents).countP (Call.onNotif (acceptedOn t)) =
      if taskId = t then documents.countP (fun d => decide (d.id = item.offerId)) else 0 := by
  induction documents with
  | nil => simp [accept]
  | cons d documents ih =>
      rw [accept_cons, List.countP_append, ih, List.countP_cons]
      by_cases hid : d.id = item.offerId <;> by_cases ht : taskId = t <;>
        simp [accept, Call.onNotif, acceptedOn, hid, ht, add_comm]

theorem countP_issued_accepted {s : Store} {uid : Uid} {handler : Handler} {input : Input}
    (h : handler.Enabled s input) (t : DocId) :
    (handler.issued uid input).countP (Call.onNotif (acceptedOn t)) =
      match handler, input with
      | .acceptGet taskId item, .offers documents =>
          if taskId = t ∧ item.offerId ∈ documents.map Doc.id then 1 else 0
      | _, _ => 0 := by
  have hmoves := moves uid h
  generalize handler.next uid input = next at hmoves
  generalize handler.issued uid input = issued at hmoves
  cases hmoves with
  | accept taskId item documents hdocuments =>
      have hnodup := s.offers.ids_nodup_of_perm_whereEqualTo _ _ hdocuments
      rw [countP_accept, countP_id_eq hnodup]
      simp only [ite_and]
  | dismiss handler => cases handler <;> rfl
  | _ => simp [addOffer, reject, report, rate, Call.onNotif, acceptedOn]

/-- A step issues an `accepted` notification exactly when it makes a choice. -/
theorem countP_issues_accepted {w : World} {a : Action} (h : Enabled w a) (t : DocId) :
    (issues w a).countP (Call.onNotif (acceptedOn t)) =
      (chosen w a).toList.countP (fun choice => decide (choice.1 = t)) := by
  have hissues := issues_inversion h
  generalize issues w a = calls at hissues
  cases hissues with
  | nothing hprocess => simp [chosen_of_not_process hprocess]
  | newTask hprocess uid title description city category =>
      simp [chosen_of_not_process hprocess, sendNewTask, Call.onNotif]
  | @process k uid handler input hget henabled _ =>
      rw [countP_issued_accepted henabled]
      cases handler <;> cases input <;> simp only [chosen, hget, Option.toList_none,
        List.countP_nil]
      rename_i taskId item documents _
      by_cases hmem : item.offerId ∈ documents.map Doc.id <;> simp [hmem]

end Oun
