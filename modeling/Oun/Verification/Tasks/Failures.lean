import Oun.Verification.Tasks.Progress
import Oun.Verification.Winner.Single

/-! # Handlers of which some writes fail

The writes of a handler are independent of each other: no batch or transaction holds them
together. A handler is all or nothing for just those failures that leave all of its writes
undone or none. -/

namespace Oun

open Firestore Regex Transition

/-- Up to the names of created documents the store is as it was or as after a complete
run. -/
def AllOrNothing (s : Store) (ok : ℕ → Bool) (calls : List Call) : Prop :=
  SameUpToIds s (attempt ok calls s) s ∨ SameUpToIds s (attempt ok calls s) (complete calls s)

/-- The writes that succeed, where none is awaited. -/
def kept (ok : ℕ → Bool) : List Call → List Write
  | [] => []
  | call :: calls =>
      if ok 0 then call.write :: kept (fun i => ok (i + 1)) calls
      else kept (fun i => ok (i + 1)) calls

theorem kept_sublist (ok : ℕ → Bool) (calls : List Call) :
    (kept ok calls).Sublist (calls.map Call.write) := by
  induction calls generalizing ok with
  | nil => exact .slnil
  | cons call calls ih =>
      rw [kept, List.map_cons]
      split
      · exact (ih _).cons_cons _
      · exact (ih _).cons _

private theorem forall_lt_succ {P : ℕ → Prop} {n : ℕ} :
    (∀ i < n + 1, P i) ↔ P 0 ∧ ∀ i < n, P (i + 1) := by
  constructor
  · intro h
    exact ⟨h 0 (Nat.succ_pos n), fun i hi => h (i + 1) (Nat.succ_lt_succ hi)⟩
  · rintro ⟨hzero, hsucc⟩ i hi
    cases i with
    | zero => exact hzero
    | succ i => exact hsucc i (Nat.lt_of_succ_lt_succ hi)

theorem kept_eq_nil_iff (ok : ℕ → Bool) (calls : List Call) :
    kept ok calls = [] ↔ ∀ i < calls.length, ok i = false := by
  induction calls generalizing ok with
  | nil => simp [kept]
  | cons call calls ih =>
      rw [kept, List.length_cons, forall_lt_succ]
      cases h : ok 0 <;> simp [ih]

theorem kept_eq_map_iff (ok : ℕ → Bool) (calls : List Call) :
    kept ok calls = calls.map Call.write ↔ ∀ i < calls.length, ok i = true := by
  induction calls generalizing ok with
  | nil => simp [kept]
  | cons call calls ih =>
      rw [kept, List.length_cons, forall_lt_succ, List.map_cons]
      cases h : ok 0 with
      | true => simp [ih]
      | false =>
          -- One write is missing, so that the two lists differ in length.
          refine iff_of_false (fun heq => ?_) (by simp)
          have hlength := (kept_sublist (fun i => ok (i + 1)) calls).length_le
          rw [if_neg Bool.false_ne_true] at heq
          rw [heq, List.length_cons] at hlength
          omega

/-! ## Writes that all have an effect -/

/-- The writes are on one task, and every delete hits a stored offer of its own. -/
structure Effective (s : Store) (t : DocId) (writes : List Write) : Prop where
  on : ∀ w ∈ writes, w.On s t
  stored : ∀ id, .deleteOffer id ∈ writes → ∃ d ∈ s.offers.docs, d.id = id
  nodup : (writes.filterMap Write.deleteOffer?).Nodup

theorem Effective.sublist {s : Store} {t : DocId} {writes writes' : List Write}
    (h : Effective s t writes) (hsub : writes'.Sublist writes) : Effective s t writes' where
  on := fun w hw => h.on w (hsub.subset hw)
  stored := fun id hid => h.stored id (hsub.subset hid)
  nodup := h.nodup.sublist (hsub.filterMap _)

/-- Writes on a task create a document or delete an offer. -/
theorem Effective.length {s : Store} {t : DocId} {writes : List Write}
    (h : Effective s t writes) :
    writes.length = (writes.filterMap Write.offer?).length +
      (writes.filterMap Write.notif?).length + (writes.filterMap Write.violation?).length +
      (writes.filterMap Write.deleteOffer?).length := by
  have hon := h.on
  clear h
  induction writes with
  | nil => rfl
  | cons w writes ih =>
      have hrest := ih fun x hx => hon x (List.mem_cons_of_mem _ hx)
      have hw := hon w List.mem_cons_self
      cases w <;> first
        | exact hw.elim
        | simp only [List.filterMap_cons, Write.offer?, Write.notif?, Write.violation?,
            Write.deleteOffer?, List.length_cons]
          omega

theorem reached_attempt {s s' : Store} {t : DocId} (ok : ℕ → Bool) {calls : List Call}
    {before : Multiset Write} (hunawaited : ∀ c ∈ calls, c.awaited = false)
    (hon : ∀ w ∈ calls.map Call.write, w.On s t) (h : Reached s before s') :
    Reached s (before + ↑(kept ok calls)) (attempt ok calls s') := by
  induction calls generalizing ok s' before with
  | nil => simpa [kept, attempt] using h
  | cons call calls ih =>
      rw [List.map_cons, List.forall_mem_cons] at hon
      rw [List.forall_mem_cons] at hunawaited
      rw [kept, attempt, hunawaited.1]
      cases hok : ok 0 with
      | true =>
          have hstep := ih (fun i => ok (i + 1)) hunawaited.2 hon.2 (h.write hon.1)
          simpa [← Multiset.cons_coe, Multiset.cons_add, Multiset.add_cons] using hstep
      | false => simpa using ih (fun i => ok (i + 1)) hunawaited.2 hon.2 h

/-! ## As it was, or complete -/

private theorem created_length {α : Type*} (kind : Write → Option α) (writes : List Write) :
    Multiset.card (created kind ↑writes) = (writes.filterMap kind).length := by
  simp [created]

/-- Of writes that all have an effect none can be left out unnoticed. -/
theorem Effective.eq_of_same {s s₁ s₂ : Store} {t : DocId} {writes₁ writes₂ : List Write}
    (heffective : Effective s t writes₂) (hsub : writes₁.Sublist writes₂)
    (h₁ : Reached s ↑writes₁ s₁) (h₂ : Reached s ↑writes₂ s₂) (hsame : SameUpToIds s s₁ s₂) :
    writes₁ = writes₂ := by
  have hoffers := h₁.offers.symm.trans (hsame.offers.trans h₂.offers)
  have hnotifs := h₁.notifs.symm.trans (hsame.notifs.trans h₂.notifs)
  have hviolations := h₁.violations.symm.trans (hsame.violations.trans h₂.violations)
  have hdeletes : ∀ id, Write.deleteOffer id ∈ writes₂ → Write.deleteOffer id ∈ writes₁ := by
    intro id hid
    by_contra hnot
    obtain ⟨d, hd, rfl⟩ := heffective.stored id hid
    -- The offer that was not deleted is in the first view and not in the second.
    have hview : (some d.id, d.data) ∈
        (s.offers.view s.offers.next).filter
          (fun x => ∀ id ∈ x.1, Write.deleteOffer id ∉ (↑writes₂ : Multiset Write)) +
        created Write.offer? ↑writes₂ := by
      rw [← hoffers, Multiset.mem_add, Multiset.mem_filter]
      exact .inl ⟨Collection.mem_view_old hd (s.offers.fresh d hd), by simpa using hnot⟩
    rw [Multiset.mem_add, Multiset.mem_filter] at hview
    rcases hview with ⟨-, hkept⟩ | hnew
    · exact hkept d.id rfl (Multiset.mem_coe.mpr hid)
    · obtain ⟨o, -, heq⟩ := Multiset.mem_map.mp hnew
      simp at heq
  have hfilter : (s.offers.view s.offers.next).filter
        (fun x => ∀ id ∈ x.1, Write.deleteOffer id ∉ (↑writes₁ : Multiset Write)) =
      (s.offers.view s.offers.next).filter
        (fun x => ∀ id ∈ x.1, Write.deleteOffer id ∉ (↑writes₂ : Multiset Write)) := by
    refine Multiset.filter_congr fun x _ => forall₂_congr fun id _ => not_congr ?_
    exact ⟨fun hid => hsub.subset hid, hdeletes id⟩
  rw [hfilter] at hoffers
  have hcount : ∀ {α : Type} (kind : Write → Option α),
      created kind ↑writes₁ = created kind ↑writes₂ →
      (writes₁.filterMap kind).length = (writes₂.filterMap kind).length := fun kind heq => by
    rw [← created_length, heq, created_length]
  have hleast : (writes₂.filterMap Write.deleteOffer?).length ≤
      (writes₁.filterMap Write.deleteOffer?).length := by
    refine (List.subperm_of_subset heffective.nodup fun id hid => ?_).length_le
    obtain ⟨w, hw, hkind⟩ := List.mem_filterMap.mp hid
    cases w with
    | deleteOffer id' => exact List.mem_filterMap.mpr ⟨_, hdeletes id' hw, hkind⟩
    | _ => simp [Write.deleteOffer?] at hkind
  refine hsub.eq_of_length ?_
  have hlength₁ := (heffective.sublist hsub).length
  have hlength₂ := heffective.length
  have hle := hsub.length_le
  have ho := hcount Write.offer? (Multiset.add_right_inj.mp hoffers)
  have hn := hcount Write.notif? (Multiset.add_right_inj.mp hnotifs)
  have hv := hcount Write.violation? (Multiset.add_right_inj.mp hviolations)
  omega

/-- Writes that all have an effect and are not awaited are all or nothing just when all
succeed or all fail. -/
theorem allOrNothing_iff {s : Store} {t : DocId} {calls : List Call} (ok : ℕ → Bool)
    (hunawaited : ∀ c ∈ calls, c.awaited = false)
    (heffective : Effective s t (calls.map Call.write)) :
    AllOrNothing s ok calls ↔
      (∀ i < calls.length, ok i = true) ∨ ∀ i < calls.length, ok i = false := by
  have hreached : ∀ ok, Reached s ↑(kept ok calls) (attempt ok calls s) := fun ok => by
    simpa using reached_attempt ok hunawaited heffective.on (Reached.refl s)
  have hcomplete : kept (fun _ => true) calls = calls.map Call.write :=
    (kept_eq_map_iff _ _).mpr fun _ _ => rfl
  have hall := hreached fun _ => true
  rw [hcomplete] at hall
  rw [← kept_eq_map_iff, ← kept_eq_nil_iff]
  have hsub := kept_sublist ok calls
  constructor
  · rintro (hsame | hsame)
    · exact .inr ((heffective.sublist hsub).eq_of_same (List.nil_sublist _) (Reached.refl s)
        (hreached ok) hsame.symm).symm
    · exact .inl (heffective.eq_of_same hsub (hreached ok) hall hsame)
  · rintro (heq | heq)
    · exact .inr ((heq ▸ hreached ok).sameUpToIds hall)
    · exact .inl ((heq ▸ hreached ok : Reached s ↑([] : List Write) _).sameUpToIds (Reached.refl s))

/-! ## The three handlers -/

theorem addOffer_effective (s : Store) (furniture : Furniture) (uid : Uid) (price : Text) :
    Effective s furniture.id ((addOffer furniture uid price).map Call.write) where
  on := by simp [addOffer, Write.On]
  stored := by simp [addOffer]
  nodup := by simp [addOffer, List.filterMap_cons, Write.deleteOffer?]

/-- The Accept loop deletes each of the other offers once. -/
theorem accept_deletes (taskId : DocId) (item : Item) (documents : List (Doc Offer)) :
    ((accept taskId item documents).map Call.write).filterMap Write.deleteOffer? =
      (documents.filter (fun d => d.id ≠ item.offerId)).map Doc.id := by
  induction documents with
  | nil => rfl
  | cons d documents ih =>
      rw [accept_cons, List.map_append, List.filterMap_append, ih]
      by_cases hid : d.id = item.offerId <;> simp [accept, hid, Write.deleteOffer?]

theorem accept_effective {s : Store} {taskId : DocId} (item : Item) {documents : List (Doc Offer)}
    (hdocuments : documents.Perm (s.offers.whereEqualTo Offer.task taskId)) :
    Effective s taskId ((accept taskId item documents).map Call.write) where
  on := by
    have hall := (Operation.accept 0 taskId item).writes_on (s := s) trivial
    intro w hw
    refine hall w ?_
    exact ((List.Perm.flatMap_right _ hdocuments).map _).mem_iff.mp hw
  stored := by
    intro id hid
    obtain ⟨c, hc, hwrite⟩ := List.mem_map.mp hid
    obtain ⟨x, hx, ⟨-, rfl | rfl⟩ | ⟨-, rfl⟩⟩ := mem_accept.mp hc
    · obtain rfl := Write.deleteOffer.inj hwrite
      exact ⟨x, ((s.offers.mem_whereEqualTo _ _ x).mp (hdocuments.mem_iff.mp hx)).1, rfl⟩
    · simp at hwrite
    · simp at hwrite
  nodup := by
    rw [accept_deletes]
    exact (s.offers.ids_nodup_of_perm_whereEqualTo _ _ hdocuments).sublist
      (List.filter_sublist.map Doc.id)

/-- Reject awaits its delete: after a failed one nothing has changed. -/
theorem attempt_reject (s : Store) (ok : ℕ → Bool) (taskId : DocId) (item : Item) :
    attempt ok (reject taskId item) s =
      if ok 0 then
        if ok 1 then complete (reject taskId item) s
        else { s with offers := s.offers.delete item.offerId }
      else s := by
  simp only [reject, attempt, complete, ite_true]
  rfl

/-- A failed notification leaves the offer deleted, unless it was gone before. -/
theorem reject_allOrNothing_iff (s : Store) (ok : ℕ → Bool) (taskId : DocId) (item : Item) :
    AllOrNothing s ok (reject taskId item) ↔
      ok 0 = false ∨ ok 1 = true ∨ ∀ d ∈ s.offers.docs, d.id ≠ item.offerId := by
  rw [AllOrNothing, attempt_reject]
  cases hzero : ok 0 with
  | false => exact iff_of_true (.inl (.refl s s)) (.inl rfl)
  | true =>
      cases hone : ok 1 with
      | true => exact iff_of_true (.inr (.refl s _)) (.inr (.inl rfl))
      | false =>
          simp only [Bool.true_eq_false, ite_true, Bool.false_eq_true, ite_false, false_or]
          constructor
          · rintro (hsame | hsame) d hd hid
            · have hview := Collection.mem_view_old hd (s.offers.fresh d hd)
              rw [← hsame.offers] at hview
              exact ((s.offers.mem_delete _ _).mp (Collection.mem_docs_of_view hview)).2 hid
            · -- The complete run has written a notification more.
              have hnotifs := congrArg Multiset.card hsame.notifs
              simp [complete, attempt, reject, Write.apply, Collection.view_add] at hnotifs
          · intro hgone
            rw [s.offers.delete_of_not_mem hgone]
            exact .inl (.refl s s)

/-- Reject tells of a rejection only when the offer is gone. -/
theorem reject_tells_deleted (s : Store) (ok : ℕ → Bool) (taskId : DocId) (item : Item)
    {d : Doc Offer} (hd : d ∈ (attempt ok (reject taskId item) s).offers.docs)
    (hid : d.id = item.offerId) : (attempt ok (reject taskId item) s).notifs = s.notifs := by
  rw [attempt_reject] at hd ⊢
  cases hzero : ok 0 with
  | false => rfl
  | true =>
      cases hone : ok 1 with
      | true =>
          simp only [hzero, hone, ite_true] at hd
          exact absurd hid ((s.offers.mem_delete _ _).mp hd).2
      | false => rfl

/-- Exactly for these failures the handlers leave the store as it was or as after the
complete run: of ADD both or no writes, of Accept all or no writes, of Reject the delete,
nothing, or the notification about an offer that was gone before. Reject never tells of a
live offer. -/
theorem handlers_allOrNothing_iff (s : Store) (ok : ℕ → Bool) :
    (∀ furniture uid price,
      AllOrNothing s ok (addOffer furniture uid price) ↔ ok 0 = ok 1) ∧
    (∀ taskId item documents, documents.Perm (s.offers.whereEqualTo Offer.task taskId) →
      (AllOrNothing s ok (accept taskId item documents) ↔
        (∀ i < (accept taskId item documents).length, ok i = true) ∨
          ∀ i < (accept taskId item documents).length, ok i = false)) ∧
    (∀ taskId item, AllOrNothing s ok (reject taskId item) ↔
      ok 0 = false ∨ ok 1 = true ∨ ∀ d ∈ s.offers.docs, d.id ≠ item.offerId) ∧
    ∀ taskId item, ∀ d ∈ (attempt ok (reject taskId item) s).offers.docs, d.id = item.offerId →
      (attempt ok (reject taskId item) s).notifs = s.notifs := by
  refine ⟨fun furniture uid price => ?_, fun taskId item documents hdocuments => ?_,
    fun taskId item => reject_allOrNothing_iff s ok taskId item,
    fun taskId item d hd => reject_tells_deleted s ok taskId item hd⟩
  · rw [allOrNothing_iff ok (by simp [addOffer]) (addOffer_effective s furniture uid price)]
    have hlength : (addOffer furniture uid price).length = 2 := rfl
    simp only [hlength, forall_lt_succ, Nat.not_lt_zero, false_implies, implies_true, and_true]
    cases ok 0 <;> cases ok 1 <;> simp
  · refine allOrNothing_iff ok (fun c hc => ?_) (accept_effective item hdocuments)
    obtain ⟨x, -, ⟨-, rfl | rfl⟩ | ⟨-, rfl⟩⟩ := mem_accept.mp hc <;> rfl

/-- An Accept of two offers of which only the first delete succeeds is neither. -/
theorem handlers_allOrNothing_iff_offered :
    ¬ AllOrNothing (app.final app.init Scenario.offered).store (fun i => i == 0)
      (accept 0 ⟨Scenario.sixty, 2, 0⟩
        [Scenario.offer 1 3 Scenario.seventy, Scenario.offer 0 2 Scenario.sixty]) := by
  rw [(handlers_allOrNothing_iff _ _).2.1 0 _ _ (by decide +kernel)]
  decide

/-- The app can end between the first offer for a task and its notification. -/
theorem addOffer_not_allOrNothing :
    ¬ ∀ w, Reachable app w → ∀ ok furniture uid price, priceValidator price = none →
      AllOrNothing w.store ok (addOffer furniture uid price) := by
  intro h
  have hhalf := h _ ⟨_, app.run_steps _ Scenario.posted (by decide +kernel)⟩ (fun i => i == 0)
    (.ofDoc Scenario.task) 2 Scenario.seventy (by decide +kernel)
  rw [allOrNothing_iff _ (by simp [addOffer]) (addOffer_effective _ _ _ _)] at hhalf
  rcases hhalf with hhalf | hhalf
  · exact absurd (hhalf 1 (by decide)) (by decide)
  · exact absurd (hhalf 0 (by decide)) (by decide)

end Oun
