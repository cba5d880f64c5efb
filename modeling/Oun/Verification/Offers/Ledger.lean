import Oun.Verification.Roles.Preservation

/-! # The ledger of offers

Offers are stored under consecutive ids. An offer is live until a delete of it lands, and
every delete is issued together with one rejection of the same offer. -/

namespace Oun

open Firestore Regex Transition

def Call.deletes (id : DocId) (c : Call) : Bool :=
  decide (c.write = .deleteOffer id)

/-- A notification of a provider about a task. -/
def notified (status : Status) (t : DocId) (p : Uid) (n : Notif) : Bool :=
  decide (n.task = t) && decide (n.user = p) && decide (n.status = status)

/-- The call tells the provider of the offer the verdict on it. -/
def Call.tells (status : Status) (d : Doc Offer) (c : Call) : Bool :=
  decide (c.about = some d.id) && c.onNotif (notified status d.data.task d.data.provider)

def offeredBy (t : DocId) (p : Uid) (o : Offer) : Bool :=
  decide (o.task = t) && decide (o.provider = p)

/-- The stored offers of a provider on a task. -/
def liveOffers (s : Store) (t : DocId) (p : Uid) : ℕ :=
  s.offers.count (offeredBy t p)

def Write.offer? : Write → Option Offer
  | .addOffer o => some o
  | _ => none

def Write.deleteOffer? : Write → Option DocId
  | .deleteOffer id => some id
  | _ => none

/-! ## Submissions -/

def submissions (log : List Event) : List Event :=
  log.filter fun e => e.call.onOffer fun _ => true

theorem mem_submissions {log : List Event} {e : Event} :
    e ∈ submissions log ↔ e ∈ log ∧ ∃ o, e.call.write = .addOffer o := by
  simp [submissions, Call.onOffer_iff]

theorem submitted_append {log : List Event} {e : Event} {id : DocId} {o : Offer} :
    Submitted (log ++ [e]) id o ↔ Submitted log id o ∨ e.call.write = .addOffer o ∧ e.id = id := by
  simp [Submitted, or_and_right, exists_or]

/-- The ids of the submitted offers are those generated so far. -/
theorem submission_ids {w : World} (hw : Reachable app w) :
    (submissions w.log).map Event.id = List.range w.store.offers.next := by
  refine hw.invariant (I := fun w => (submissions w.log).map Event.id =
    List.range w.store.offers.next) rfl ?_
  intro u a _ hu ha
  show (submissions (perform u a).log).map Event.id = List.range (perform u a).store.offers.next
  rw [offers_perform ha]
  cases hlands : lands u a with
  | none =>
      rw [(perform_of_not_lands ha hlands).2]
      exact hu
  | some c =>
      obtain ⟨write, awaited, about⟩ := c
      obtain ⟨-, uid, hlog⟩ := perform_of_lands ha hlands
      rw [hlog, submissions, List.filter_append, List.map_append, ← submissions, hu]
      cases write with
      | addOffer o =>
          simp only [Option.map_some, Write.onOffers, Collection.next_add, List.range_succ]
          rfl
      | _ => simp [Write.onOffers, Call.onOffer]

theorem Submitted.lt {w : World} (hw : Reachable app w) {id : DocId} {o : Offer}
    (h : Submitted w.log id o) : id < w.store.offers.next := by
  obtain ⟨e, he, hwrite, rfl⟩ := h
  rw [← List.mem_range, ← submission_ids hw]
  exact List.mem_map_of_mem (mem_submissions.mpr ⟨he, o, hwrite⟩)

/-- An id was given to one offer only. -/
theorem Submitted.unique {w : World} (hw : Reachable app w) {id : DocId} {o o' : Offer}
    (h : Submitted w.log id o) (h' : Submitted w.log id o') : o = o' := by
  obtain ⟨e, he, hwrite, hid⟩ := h
  obtain ⟨e', he', hwrite', hid'⟩ := h'
  have hnodup : ((submissions w.log).map Event.id).Nodup := by
    rw [submission_ids hw]
    exact List.nodup_range
  obtain rfl : e = e' := List.inj_on_of_nodup_map hnodup (mem_submissions.mpr ⟨he, o, hwrite⟩)
    (mem_submissions.mpr ⟨he', o', hwrite'⟩) (hid.trans hid'.symm)
  exact Write.addOffer.inj (hwrite.symm.trans hwrite')

/-! ## Deletes -/

/-- Only submitted offers are ever to be deleted. -/
theorem submitted_of_deletes {w : World} (hw : Reachable app w) {id : DocId}
    (h : 0 < w.issued (Call.deletes id)) : ∃ o, Submitted w.log id o := by
  have hproper : ∃ uid c, c.write = .deleteOffer id ∧ Call.Proper w uid c := by
    rcases Nat.add_pos_iff_pos_or_pos.mp h with h | h
    · obtain ⟨e, he, hdeletes⟩ := logged_pos.mp h
      exact ⟨e.uid, e.call, of_decide_eq_true hdeletes, (provenance hw).log e he⟩
    · obtain ⟨⟨uid, handler⟩, hp, c, hc, hdeletes⟩ := pending_pos.mp h
      cases handler with
      | writing job calls =>
          exact ⟨uid, c, of_decide_eq_true hdeletes, (provenance hw).processes _ hp c hc⟩
      | _ => simp [Handler.calls] at hc
  obtain ⟨uid, c, hwrite, hc⟩ := hproper
  simp only [Call.Proper, hwrite] at hc
  obtain ⟨-, o, hsub, -⟩ := hc
  exact ⟨o, hsub⟩

/-- The live offers are the submitted ones that no delete has reached. -/
theorem mem_offers_iff {w : World} (hw : Reachable app w) (d : Doc Offer) :
    d ∈ w.store.offers.docs ↔ Submitted w.log d.id d.data ∧ w.logged (Call.deletes d.id) = 0 := by
  refine hw.invariant (I := fun w => ∀ d, d ∈ w.store.offers.docs ↔
    Submitted w.log d.id d.data ∧ w.logged (Call.deletes d.id) = 0) ?_ ?_ d
  · simp [app, World.init, Store.empty, Submitted]
  intro u a hreach hu ha d
  show d ∈ (perform u a).store.offers.docs ↔
    Submitted (perform u a).log d.id d.data ∧ (perform u a).logged (Call.deletes d.id) = 0
  rw [offers_perform ha, logged_perform ha]
  cases hlands : lands u a with
  | none => simpa [Write.onOffers, (perform_of_not_lands ha hlands).2] using hu d
  | some c =>
      obtain ⟨write, awaited, about⟩ := c
      obtain ⟨-, uid, hlog⟩ := perform_of_lands ha hlands
      rw [hlog, submitted_append]
      cases write with
      | addOffer o =>
          simp only [Option.map_some, Write.onOffers, Collection.mem_add, hu d, Call.deletes,
            Write.docId, Write.addOffer.injEq, Option.toList_some, List.countP_singleton,
            reduceCtorEq, decide_false, Bool.false_eq_true, ite_false, Nat.add_zero]
          constructor
          · rintro (⟨hsub, hlogged⟩ | rfl)
            · exact ⟨.inl hsub, hlogged⟩
            · -- No delete of an id was issued before the id was generated.
              refine ⟨.inr ⟨rfl, rfl⟩, Nat.eq_zero_of_not_pos fun hpos => ?_⟩
              obtain ⟨o', hsub⟩ : ∃ o', Submitted u.log u.store.offers.next o' :=
                submitted_of_deletes hreach (Nat.add_pos_left hpos _)
              exact absurd (hsub.lt hreach) (Nat.lt_irrefl _)
          · rintro ⟨hsub | ⟨rfl, hid⟩, hlogged⟩
            · exact .inl ⟨hsub, hlogged⟩
            · exact .inr (by rw [hid])
      | deleteOffer id =>
          simp only [Option.map_some, Write.onOffers, Collection.mem_delete, hu d, Call.deletes,
            reduceCtorEq, false_and, or_false, Option.toList_some, List.countP_singleton,
            Write.deleteOffer.injEq, and_assoc]
          by_cases hid : d.id = id
          · simp [hid]
          · simp [hid, Ne.symm hid]
      | _ =>
          simp only [Option.map_some, Write.onOffers, hu d, Call.deletes, reduceCtorEq, false_and,
            or_false, Option.toList_some, List.countP_singleton, decide_false, Bool.false_eq_true,
            ite_false, Nat.add_zero]

/-! ## Offers that are about one id -/

/-- No other offer was submitted under the id. What holds of a log holds of every earlier
one, also of those from before the submission. -/
def NoOther (log : List Event) (d : Doc Offer) : Prop :=
  ∀ o, Submitted log d.id o → o = d.data

theorem Submitted.noOther {w : World} (hw : Reachable app w) {d : Doc Offer}
    (h : Submitted w.log d.id d.data) : NoOther w.log d :=
  fun _ ho => ho.unique hw h

theorem NoOther.before {w w' : World} {d : Doc Offer} (hext : Extends w w')
    (h : NoOther w'.log d) : NoOther w.log d :=
  fun o ho => h o (ho.mono hext)

theorem NoOther.eq {w : World} (hw : Reachable app w) {d x : Doc Offer} (h : NoOther w.log d)
    (hx : x ∈ w.store.offers.docs) (hid : x.id = d.id) : x = d := by
  have hdata := h x.data (hid ▸ ((mem_offers_iff hw x).mp hx).1)
  cases x
  cases d
  simp_all

end Oun
