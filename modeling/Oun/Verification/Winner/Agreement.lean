import Oun.Verification.Sessions.Questions
import Oun.Verification.Winner.Single

/-! # The two readings of acceptance

The detail screen asks for exactly one match, the My Tasks list for at least one. -/

namespace Oun

open Firestore Regex Transition

/-! ## What the two questions answer -/

/-- On every answer to its query, `isAccepted()` says whether there is exactly one winner. -/
theorem isAccepted_iff {s : Store} {t : DocId} {documents : List (Doc Notif)}
    (h : documents.Perm (s.notifs.whereEqualTo Notif.task t)) (provider : Option Uid) :
    (isAccepted documents provider).1 = true ↔ winners s t = 1 := by
  have hcount : documents.countP (fun d => decide (d.data.status = .accepted)) = winners s t := by
    rw [h.countP_eq, s.notifs.countP_whereEqualTo _ _ fun n => decide (n.status = .accepted)]
    simp only [winners, Bool.and_comm]
    rfl
  rw [isAccepted_fst, hcount, beq_iff_eq]

/-- On every answer to its query, the My Tasks list says whether there is a winner. -/
theorem listIsAccepted_iff_winners {s : Store} {documents : List (Doc Notif)}
    (h : documents.Perm (s.notifs.whereEqualTo Notif.status .accepted)) (t : DocId) :
    listIsAccepted documents t = true ↔ 0 < winners s t := by
  rw [listIsAccepted_iff, winners, Collection.count_pos]
  simp [h.mem_iff, acceptedOn, and_comm, and_assoc]

/-! ## Agreement and finality -/

/-- Whatever the order of the answers, both screens decide alike. -/
def ReadsAgree (s : Store) (t : DocId) : Prop :=
  ∀ onTask accepted provider, onTask.Perm (s.notifs.whereEqualTo Notif.task t) →
    accepted.Perm (s.notifs.whereEqualTo Notif.status .accepted) →
    (isAccepted onTask provider).1 = listIsAccepted accepted t

/-- `isAccepted()` answers true, whatever the order of the documents. -/
def ReadsAccepted (s : Store) (t : DocId) : Prop :=
  ∀ documents provider, documents.Perm (s.notifs.whereEqualTo Notif.task t) →
    (isAccepted documents provider).1 = true

theorem readsAgree_iff (s : Store) (t : DocId) : ReadsAgree s t ↔ winners s t ≤ 1 := by
  constructor
  · intro h
    have hagree := h _ _ none (.refl _) (.refl _)
    rw [Bool.eq_iff_iff, isAccepted_iff (.refl _), listIsAccepted_iff_winners (.refl _)] at hagree
    omega
  · intro h onTask accepted provider hon hacc
    rw [Bool.eq_iff_iff, isAccepted_iff hon, listIsAccepted_iff_winners hacc]
    omega

theorem readsAccepted_iff (s : Store) (t : DocId) : ReadsAccepted s t ↔ winners s t = 1 := by
  constructor
  · intro h
    exact (isAccepted_iff (.refl _) none).mp (h _ none (.refl _))
  · intro h documents provider hdocuments
    exact (isAccepted_iff hdocuments provider).mpr h

theorem winners_mono {w w' : World} {trace : List (World × Action)} (run : Run app w trace w')
    (t : DocId) : winners w.store t ≤ winners w'.store t := by
  refine run.invariant (C := fun _ _ => True) (I := fun u => winners w.store t ≤ winners u.store t)
    (fun _ _ => trivial) le_rfl ?_
  intro u a hu ha _
  calc
    winners w.store t ≤ winners u.store t := hu
    _ ≤ winners (perform u a).store t := by
      rw [winners, winners, notifs_perform ha]
      exact Nat.le_add_right _ _

/-- If every choice is made for an unsettled task, the two screens agree and an acceptance
once read is read in every later state; and once all writes have landed, agreement means
that every choice was made so. -/
theorem acceptance_agrees_and_stays {trace later : List (World × Action)} {w w' : World}
    (run : Run app World.init trace w) (continued : Run app w later w') :
    (Meets ChoosesUnsettled (trace ++ later) → ∀ t, ReadsAgree w.store t ∧
      (ReadsAccepted w.store t → ReadsAccepted w'.store t)) ∧
    (w'.Quiet → (∀ t, ReadsAgree w'.store t) → Meets ChoosesUnsettled (trace ++ later)) := by
  have hw : Reachable app w := ⟨trace, run⟩
  have hw' : Reachable app w' := continued.reachable hw
  constructor
  · intro hC t
    have hle := (winners_le_issued hw t).trans
      (issued_accepted_le_one run ((meets_append ..).mp hC).1 t)
    have hle' := (winners_le_issued hw' t).trans
      (issued_accepted_le_one (run.trans continued) hC t)
    have hmono := winners_mono continued t
    simp only [readsAgree_iff, readsAccepted_iff]
    omega
  · rintro hquiet hagree ⟨u, a⟩ hmem choice hchosen hsettled
    obtain ⟨front, back, -, hfront, ha, hback⟩ := (run.trans continued).split hmem
    have htwo := two_le_issued_of_chosen ⟨front, hfront⟩ ha hchosen hsettled hback
    rw [← winners_eq_issued hw' hquiet] at htwo
    have hle := (readsAgree_iff _ _).mp (hagree choice.1)
    omega

namespace Scenario

/-- An Accept handler alone, up to the acceptance; the losing offer is still there. -/
def accepting : List Action :=
  offered ++ owner 0 2 ++ confirmAccept 2 3 (offer 0 2 sixty) ++
    [.process 3 (.offers [offer 0 2 sixty, offer 1 3 seventy]), .write 3]

/-- Both phones accept; only the first acceptance has landed. -/
def firstAccepted : List Action :=
  offered ++ owner 0 2 ++ owner 1 3 ++
    confirmAccept 2 3 (offer 0 2 sixty) ++ confirmAccept 3 4 (offer 1 3 seventy) ++
    [.process 3 (.offers [offer 0 2 sixty, offer 1 3 seventy]),
      .process 4 (.offers [offer 0 2 sixty, offer 1 3 seventy]), .write 3]

def secondAccepted : List Action :=
  [.write 3, .write 3, .write 4, .write 4, .write 4]

end Scenario

/-- The acceptance that one handler writes first is still read when it has finished. -/
theorem acceptance_stays_accepting :
    ReadsAgree (app.final app.init Scenario.accepting).store 0 ∧
      (ReadsAccepted (app.final app.init Scenario.accepting).store 0 →
        ReadsAccepted (app.final (app.final app.init Scenario.accepting)
          [.write 3, .write 3]).store 0) :=
  (acceptance_agrees_and_stays (app.run_steps _ Scenario.accepting (by decide +kernel))
    (app.run_steps _ [.write 3, .write 3] (by decide +kernel))).1 (by decide +kernel) 0

/-- With two winners the screens disagree, and an acceptance that was read is not read
any more. -/
theorem acceptance_disagrees_reachable :
    (¬ ∀ w, Reachable app w → ∀ t, ReadsAgree w.store t) ∧
      ¬ ∀ w w' later, Reachable app w → Run app w later w' → ∀ t,
        ReadsAccepted w.store t → ReadsAccepted w'.store t := by
  have hfirst : Run app app.init _ (app.final app.init Scenario.firstAccepted) :=
    app.run_steps _ _ (by decide +kernel)
  have hsecond : Run app (app.final app.init Scenario.firstAccepted) _
      (app.final (app.final app.init Scenario.firstAccepted) Scenario.secondAccepted) :=
    app.run_steps _ _ (by decide +kernel)
  have hone : winners (app.final app.init Scenario.firstAccepted).store 0 = 1 := by
    decide +kernel
  have htwo : winners (app.final (app.final app.init Scenario.firstAccepted)
      Scenario.secondAccepted).store 0 = 2 := by
    decide +kernel
  constructor
  · intro h
    have hle := (readsAgree_iff _ _).mp (h _ ⟨_, hfirst.trans hsecond⟩ 0)
    omega
  · intro h
    have hstays := h _ _ _ ⟨_, hfirst⟩ hsecond 0 ((readsAccepted_iff _ _).mpr hone)
    have := (readsAccepted_iff _ _).mp hstays
    omega

end Oun
