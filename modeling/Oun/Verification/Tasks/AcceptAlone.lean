import Oun.Verification.Tasks.Independence

/-! # Accept alone

What an Accept handler leaves behind when no other handler interleaves: on an offer that is
still there, and on one that is gone. -/

namespace Oun

open Firestore Regex
open Relation (ReflTransGen)

variable {t : DocId} {item : Item}

/-! ## The loop -/

@[simp] theorem complete_nil (s : Store) : complete [] s = s := rfl

@[simp] theorem complete_cons (c : Call) (calls : List Call) (s : Store) :
    complete (c :: calls) s = complete calls (c.write.apply s) := rfl

theorem complete_append (front back : List Call) (s : Store) :
    complete (front ++ back) s = complete back (complete front s) := by
  induction front generalizing s with
  | nil => rfl
  | cons c front ih => exact ih _

/-- What the loop tells about a document. -/
def verdict (t : DocId) (item : Item) (d : Doc Offer) : Notif :=
  if d.id ≠ item.offerId then
    { user := d.data.provider, task := t, status := .rejected, new := true }
  else { user := item.prov, task := t, status := .accepted, new := true }

/-- The loop deletes the documents that it reads apart from the chosen one and adds a
notification for each. -/
structure LoopDone (t : DocId) (item : Item) (documents : List (Doc Offer)) (s s' : Store) :
    Prop where
  offers : ∀ x, x ∈ s'.offers.docs ↔ x ∈ s.offers.docs ∧
    ∀ d ∈ documents, d.id = x.id → d.id = item.offerId
  notifs : ∃ added, s'.notifs.docs = s.notifs.docs ++ added ∧
    added.map Doc.data = documents.map (verdict t item)
  tasks : s'.tasks = s.tasks
  violations : s'.violations = s.violations
  rate : s'.rate = s.rate
  users : s'.users = s.users

theorem LoopDone.append {front back : List (Doc Offer)} {s s' s'' : Store}
    (hfront : LoopDone t item front s s') (hback : LoopDone t item back s' s'') :
    LoopDone t item (front ++ back) s s'' where
  offers x := by
    rw [hback.offers, hfront.offers, List.forall_mem_append, and_assoc]
  notifs := by
    obtain ⟨added, hadded, hdata⟩ := hfront.notifs
    obtain ⟨added', hadded', hdata'⟩ := hback.notifs
    exact ⟨added ++ added', by rw [hadded', hadded, List.append_assoc],
      by rw [List.map_append, List.map_append, hdata, hdata']⟩
  tasks := hback.tasks.trans hfront.tasks
  violations := hback.violations.trans hfront.violations
  rate := hback.rate.trans hfront.rate
  users := hback.users.trans hfront.users

theorem complete_accept_one (d : Doc Offer) (s : Store) :
    LoopDone t item [d] s (complete (accept t item [d]) s) := by
  by_cases hid : d.id = item.offerId
  · have hone : accept t item [d] = [⟨.addNotif (verdict t item d), false, some item.offerId⟩] := by
      simp [accept, verdict, hid]
    rw [hone]
    exact ⟨by simp [Write.apply, hid], ⟨[⟨s.notifs.next, verdict t item d⟩], rfl, rfl⟩,
      rfl, rfl, rfl, rfl⟩
  · have htwo : accept t item [d] = [⟨.deleteOffer d.id, false, some d.id⟩,
        ⟨.addNotif (verdict t item d), false, some d.id⟩] := by
      simp [accept, verdict, hid]
    rw [htwo]
    refine ⟨fun x => ?_, ⟨[⟨s.notifs.next, verdict t item d⟩], rfl, rfl⟩, rfl, rfl, rfl, rfl⟩
    simp [Write.apply, Collection.delete, hid, @eq_comm _ d.id x.id]

theorem complete_accept (documents : List (Doc Offer)) (s : Store) :
    LoopDone t item documents s (complete (accept t item documents) s) := by
  induction documents generalizing s with
  | nil => exact ⟨by simp [accept], ⟨[], by simp [accept]⟩, rfl, rfl, rfl, rfl⟩
  | cons d documents ih =>
      rw [accept_cons, complete_append]
      exact (complete_accept_one d s).append (ih _)

/-! ## The handler -/

/-- An Accept handler that has finished alone has run its loop on what it read. -/
theorem accept_completes {uid : Uid} {s s' : Store} {handler : Handler}
    (alone : ReflTransGen (Operation.accept uid t item).Advances
      (s, (Operation.accept uid t item).start) (s', handler)) (hfinished : handler.Finished) :
    ∃ documents, documents.Perm (s.offers.whereEqualTo Offer.task t) ∧
      s' = complete (accept t item documents) s := by
  suffices h : ∀ x, ReflTransGen (Operation.accept uid t item).Advances
      (s, (Operation.accept uid t item).start) x →
      (x = (s, .acceptDialog t item) ∨ x = (s, .acceptGet t item) ∨
        ∃ documents calls, documents.Perm (s.offers.whereEqualTo Offer.task t) ∧
          x.2 = .writing (.accept t item) calls ∧
          complete calls x.1 = complete (accept t item documents) s) by
    rcases h _ alone with h | h | ⟨documents, calls, hperm, hhandler, hcomplete⟩
    · obtain ⟨-, rfl⟩ := Prod.mk.inj h
      exact hfinished.elim
    · obtain ⟨-, rfl⟩ := Prod.mk.inj h
      exact hfinished.elim
    · obtain rfl : handler = .writing (.accept t item) calls := hhandler
      cases calls with
      | nil => exact ⟨documents, hperm, hcomplete⟩
      | cons c calls => exact hfinished.elim
  intro x hx
  induction hx with
  | refl => exact .inl rfl
  | @tail y z _ hstep ih =>
      obtain ⟨move, hcan, rfl⟩ := hstep
      rcases ih with rfl | rfl | ⟨documents, calls, hperm, hhandler, hcomplete⟩
      · cases move with
        | write => exact absurd rfl hcan
        | input input =>
            obtain ⟨henters, henabled⟩ := hcan
            cases input with
            | ok => exact .inr (.inl rfl)
            | dismiss => exact henters.elim
            | _ => exact henabled.elim
      · cases move with
        | write => exact absurd rfl hcan
        | input input =>
            obtain ⟨henters, henabled⟩ := hcan
            cases input with
            | offers documents => exact .inr (.inr ⟨documents, _, henabled, rfl, rfl⟩)
            | dismiss => exact henters.elim
            | _ => exact henabled.elim
      · obtain ⟨s₁, _⟩ := y
        obtain rfl := hhandler
        cases move with
        | input input =>
            obtain ⟨henters, henabled⟩ := hcan
            cases input <;> simp [Handler.Enabled, Handler.isDialog] at henabled
        | write =>
            cases calls with
            | nil => exact absurd rfl hcan
            | cons c calls => exact .inr (.inr ⟨documents, calls, hperm, rfl, hcomplete⟩)

/-! ## An offer that is still there -/

/-- The other offers on the task are gone and rejected, the accepted one is left and told,
and all else is as it was. -/
structure Accepted (s : Store) (t : DocId) (d : Doc Offer) (s' : Store) : Prop where
  offers : s'.offers.whereEqualTo Offer.task t = [d]
  otherOffers : ∀ x : Doc Offer, x.data.task ≠ t → (x ∈ s'.offers.docs ↔ x ∈ s.offers.docs)
  notifs : ∃ added, s'.notifs.docs = s.notifs.docs ++ added ∧ (added.map Doc.data).Perm
    ({ user := d.data.provider, task := t, status := .accepted, new := true } ::
      ((s.offers.whereEqualTo Offer.task t).erase d).map fun x =>
        { user := x.data.provider, task := t, status := .rejected, new := true })
  tasks : s'.tasks = s.tasks
  violations : s'.violations = s.violations
  rate : s'.rate = s.rate
  users : s'.users = s.users

/-- The loop on all offers of a task of which one is chosen. -/
theorem LoopDone.accepted {documents : List (Doc Offer)} {s s' : Store}
    (h : LoopDone t item documents s s') {d : Doc Offer}
    (hdocuments : documents.Perm (s.offers.whereEqualTo Offer.task t))
    (hd : d ∈ s.offers.whereEqualTo Offer.task t) (hitem : item.offerId = d.id)
    (hprov : item.prov = d.data.provider) : Accepted s t d s' := by
  have hstored : ∀ x ∈ documents, x ∈ s.offers.docs ∧ x.data.task = t := fun x hx =>
    (s.offers.mem_whereEqualTo _ _ x).mp (hdocuments.mem_iff.mp hx)
  obtain ⟨hdocs, htask⟩ := (s.offers.mem_whereEqualTo _ _ d).mp hd
  have hchosen : ∀ x ∈ s.offers.docs, x.id = item.offerId ↔ x = d := fun x hx =>
    ⟨fun hid => s.offers.eq_of_id_eq hx hdocs (hid.trans hitem), fun heq => heq ▸ hitem.symm⟩
  have hstays : ∀ x ∈ s.offers.docs,
      (∀ y ∈ documents, y.id = x.id → y.id = item.offerId) ↔ (x.data.task = t → x = d) := by
    intro x hx
    constructor
    · intro hall hon
      have hread := hdocuments.mem_iff.mpr ((s.offers.mem_whereEqualTo _ _ x).mpr ⟨hx, hon⟩)
      exact (hchosen x hx).mp (hall x hread rfl)
    · intro himp y hy hid
      obtain ⟨hys, hon⟩ := hstored y hy
      obtain rfl := s.offers.eq_of_id_eq hys hx hid
      exact (hchosen y hx).mpr (himp hon)
  refine ⟨?_, fun x hx => ?_, ?_, h.tasks, h.violations, h.rate, h.users⟩
  · refine List.perm_singleton.mp ((List.perm_ext_iff_of_nodup
      (s'.offers.nodup_whereEqualTo _ _) (List.nodup_singleton d)).mpr fun x => ?_)
    rw [Collection.mem_whereEqualTo, List.mem_singleton, h.offers]
    constructor
    · rintro ⟨⟨hx, hkeep⟩, hon⟩
      exact (hstays x hx).mp hkeep hon
    · rintro rfl
      exact ⟨⟨hdocs, (hstays x hdocs).mpr fun _ => rfl⟩, htask⟩
  · rw [h.offers, and_iff_left_iff_imp]
    exact fun hs => (hstays x hs).mpr fun hon => absurd hon hx
  · obtain ⟨added, hadded, hdata⟩ := h.notifs
    refine ⟨added, hadded, ?_⟩
    have hothers : ∀ x ∈ (s.offers.whereEqualTo Offer.task t).erase d,
        verdict t item x = ⟨x.data.provider, t, .rejected, true⟩ := by
      intro x hx
      obtain ⟨hne, hmem⟩ := ((s.offers.nodup_whereEqualTo _ _).mem_erase_iff).mp hx
      have hx := ((s.offers.mem_whereEqualTo _ _ x).mp hmem).1
      simp [verdict, (hchosen x hx).not.mpr hne]
    rw [hdata]
    refine ((hdocuments.trans (List.perm_cons_erase hd)).map _).trans ?_
    rw [List.map_cons, List.map_congr_left hothers]
    simp [verdict, hitem, hprov]

/-- Alone, Accept on an offer that is still there does what it says. -/
theorem accept_alone {uid : Uid} {s s' : Store} {handler : Handler} {d : Doc Offer}
    (hd : d ∈ s.offers.whereEqualTo Offer.task t) (hitem : item.offerId = d.id)
    (hprov : item.prov = d.data.provider)
    (alone : ReflTransGen (Operation.accept uid t item).Advances
      (s, (Operation.accept uid t item).start) (s', handler)) (hfinished : handler.Finished) :
    Accepted s t d s' := by
  obtain ⟨documents, hdocuments, rfl⟩ := accept_completes alone hfinished
  exact (complete_accept documents s).accepted hdocuments hd hitem hprov

namespace Scenario

def acceptFirst : Operation :=
  .accept 1 0 (.ofDoc (offer 0 2 sixty))

/-- The owner rejects an offer on the second phone; the first one still lists it. -/
def rejectedMeanwhile : List Action :=
  offered ++ owner 0 2 ++ owner 1 3 ++
    [.pressReject 3 (offer 0 2 sixty), .process 3 .ok, .write 3, .write 3]

/-- And then the other one. -/
def bothRejected : List Action :=
  rejectedMeanwhile ++ [.pressReject 3 (offer 1 3 seventy), .process 4 .ok, .write 4, .write 4]

end Scenario

/-- One of two offers is accepted. -/
theorem accept_alone_offered :
    ∃ s' handler, ReflTransGen Scenario.acceptFirst.Advances
        ((app.final app.init Scenario.offered).store, Scenario.acceptFirst.start) (s', handler) ∧
      handler.Finished ∧
      Accepted (app.final app.init Scenario.offered).store 0
        (Scenario.offer 0 2 Scenario.sixty) s' := by
  obtain ⟨s', handler, alone, hfinished⟩ :=
    Scenario.acceptFirst.completes (app.final app.init Scenario.offered).store
  exact ⟨s', handler, alone, hfinished,
    accept_alone (by decide +kernel) rfl rfl alone hfinished⟩

/-! ## An offer that is gone -/

/-- The loop without the chosen offer: nobody is told of an acceptance, all offers on the task
are deleted. -/
theorem LoopDone.stale {documents : List (Doc Offer)} {s s' : Store}
    (h : LoopDone t item documents s s')
    (hdocuments : documents.Perm (s.offers.whereEqualTo Offer.task t))
    (hgone : ∀ d ∈ s.offers.whereEqualTo Offer.task t, d.id ≠ item.offerId) :
    s'.offers.whereEqualTo Offer.task t = [] := by
  refine List.eq_nil_iff_forall_not_mem.mpr fun x hx => ?_
  obtain ⟨hx, hon⟩ := (s'.offers.mem_whereEqualTo _ _ x).mp hx
  rw [h.offers] at hx
  have hmem := (s.offers.mem_whereEqualTo Offer.task t x).mpr ⟨hx.1, hon⟩
  exact hgone x hmem (hx.2 x (hdocuments.mem_iff.mpr hmem) rfl)

/-- Alone, Accept on an offer that is gone changes nothing exactly if the task has no offers
left. -/
theorem stale_accept_iff {uid : Uid} {s s' : Store} {handler : Handler}
    (hgone : ∀ d ∈ s.offers.whereEqualTo Offer.task t, d.id ≠ item.offerId)
    (alone : ReflTransGen (Operation.accept uid t item).Advances
      (s, (Operation.accept uid t item).start) (s', handler)) (hfinished : handler.Finished) :
    s' = s ↔ s.offers.whereEqualTo Offer.task t = [] := by
  obtain ⟨documents, hdocuments, rfl⟩ := accept_completes alone hfinished
  constructor
  · intro hsame
    have hleft := (complete_accept documents s).stale hdocuments hgone
    rwa [hsame] at hleft
  · intro hnone
    rw [hnone] at hdocuments
    rw [List.perm_nil.mp hdocuments]
    rfl

/-- The other phone has rejected all offers. -/
theorem stale_accept_iff_bothRejected :
    let s := (app.final app.init Scenario.bothRejected).store
    s.notifs.docs.length = 4 ∧ ∃ s' handler,
      ReflTransGen Scenario.acceptFirst.Advances (s, Scenario.acceptFirst.start) (s', handler) ∧
        handler.Finished ∧ s' = s := by
  obtain ⟨s', handler, alone, hfinished⟩ :=
    Scenario.acceptFirst.completes (app.final app.init Scenario.bothRejected).store
  exact ⟨by decide +kernel, s', handler, alone, hfinished,
    (stale_accept_iff (by decide +kernel) alone hfinished).mpr (by decide +kernel)⟩

/-- Accept on an offer that the other phone has rejected deletes the offer that is left. -/
theorem stale_accept_changes :
    ¬ ∀ s s' uid t item handler, (∀ d ∈ s.offers.whereEqualTo Offer.task t, d.id ≠ item.offerId) →
      ReflTransGen (Operation.accept uid t item).Advances
        (s, (Operation.accept uid t item).start) (s', handler) → handler.Finished → s' = s := by
  intro h
  obtain ⟨s', handler, alone, hfinished⟩ :=
    Scenario.acceptFirst.completes (app.final app.init Scenario.rejectedMeanwhile).store
  have hgone : ∀ d ∈ (app.final app.init Scenario.rejectedMeanwhile).store.offers.whereEqualTo
      Offer.task 0, d.id ≠ (Item.ofDoc (Scenario.offer 0 2 Scenario.sixty)).offerId := by
    decide +kernel
  have hsame := h _ _ _ _ _ _ hgone alone hfinished
  obtain ⟨documents, hdocuments, rfl⟩ := accept_completes alone hfinished
  have hleft := (complete_accept documents _).stale hdocuments hgone
  rw [hsame] at hleft
  exact absurd hleft (by decide +kernel)

end Oun
