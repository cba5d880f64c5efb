import Oun.Verification.Sessions.Questions
import Oun.Verification.Winner.Single

/-! # The badge and the unseen notifications

Every notification is written as new, the badge counts the new ones, and no screen makes
them old. -/

namespace Oun

open Firestore Regex Transition

/-- The user opens the notifications screen in this action. -/
def Opens (w : World) (uid : Uid) : Action → Prop
  | .openNotifications session => (w.sessions session).user = some uid
  | _ => False

instance (w : World) (uid : Uid) (a : Action) : Decidable (Opens w uid a) := by
  apply Action.casesOn (motive := fun a => Decidable (Opens w uid a)) a <;> intros <;>
    unfold Opens <;> infer_instance

/-- The notifications created for each user since he last opened the screen, after one
more action. -/
def unseen (counts : Uid → ℕ) (w : World) (a : Action) : Uid → ℕ := fun uid =>
  if Opens w uid a then 0
  else counts uid + (lands w a).toList.countP (Call.onNotif fun n => decide (n.user = uid))

/-- The app, with the unseen notifications of each user as history. -/
def watched : System (World × (Uid → ℕ)) Action :=
  app.recording (fun _ => 0) unseen

instance (u : World × (Uid → ℕ)) (a : Action) : Decidable (watched.Enabled u a) :=
  inferInstanceAs (Decidable (Enabled u.1 a))

/-- Every badge shows the number of unseen notifications. -/
def BadgesRight (u : World × (Uid → ℕ)) : Prop :=
  ∀ uid documents, documents.Perm (u.1.store.notifs.whereEqualTo Notif.user uid) →
    badge documents = u.2 uid

/-- The screen is opened only by users without notifications. -/
def OpensUnnotified (u : World × (Uid → ℕ)) : Action → Prop
  | .openNotifications session =>
      ∀ d ∈ u.1.store.notifs.docs, (u.1.sessions session).user ≠ some d.data.user
  | _ => True

instance (u : World × (Uid → ℕ)) (a : Action) : Decidable (OpensUnnotified u a) := by
  apply Action.casesOn (motive := fun a => Decidable (OpensUnnotified u a)) a <;> intros <;>
    unfold OpensUnnotified <;> infer_instance

/-! ## Notifications stay new -/

/-- All four places that write a notification write it as new. -/
theorem issues_new {w : World} {a : Action} (h : Enabled w a) :
    (issues w a).countP (Call.onNotif fun n => !n.new) = 0 := by
  have hissues := issues_inversion h
  generalize issues w a = calls at hissues
  cases hissues with
  | nothing => rfl
  | newTask => rfl
  | @process k uid handler input hget henabled =>
      have hmoves := moves uid henabled
      generalize handler.next uid input = next at hmoves
      generalize handler.issued uid input = issued at hmoves
      cases hmoves with
      | accept taskId item documents =>
          refine List.countP_eq_zero.mpr fun c hc => ?_
          obtain ⟨x, -, ⟨-, rfl | rfl⟩ | ⟨-, rfl⟩⟩ := mem_accept.mp hc <;> simp [Call.onNotif]
      | _ => rfl

theorem issued_new {w : World} (hw : Reachable app w) :
    w.issued (Call.onNotif fun n => !n.new) = 0 := by
  refine hw.invariant (I := fun w => w.issued (Call.onNotif fun n => !n.new) = 0) rfl ?_
  intro u a _ hu ha
  show (perform u a).issued _ = 0
  rw [issued_perform ha, hu, issues_new ha]

theorem notifs_new {w : World} (hw : Reachable app w) : ∀ d ∈ w.store.notifs.docs,
    d.data.new = true := by
  have hzero : w.store.notifs.count (fun n => !n.new) = 0 := by
    have hissued := issued_new hw
    rw [World.issued] at hissued
    rw [notifs_eq_logged hw]
    omega
  intro d hd
  simpa using List.countP_eq_zero.mp hzero d hd

/-- The badge counts all notifications that the user has ever got. -/
theorem badge_eq_count {w : World} (hw : Reachable app w) {uid : Uid}
    {documents : List (Doc Notif)}
    (h : documents.Perm (w.store.notifs.whereEqualTo Notif.user uid)) :
    badge documents = w.store.notifs.count fun n => decide (n.user = uid) := by
  rw [badge_eq, h.countP_eq, Collection.whereEqualTo, List.countP_filter]
  refine List.countP_congr fun d hd => ?_
  simp [notifs_new hw d hd]

theorem badgesRight_iff {u : World × (Uid → ℕ)} (hu : Reachable app u.1) :
    BadgesRight u ↔ ∀ uid, (u.1.store.notifs.count fun n => decide (n.user = uid)) = u.2 uid := by
  constructor
  · intro h uid
    rw [← badge_eq_count hu (.refl _)]
    exact h uid _ (.refl _)
  · intro h uid documents hdocuments
    rw [badge_eq_count hu hdocuments]
    exact h uid

/-! ## One step and whole runs -/

theorem unseen_of_opens {counts : Uid → ℕ} {w : World} {a : Action} {uid : Uid}
    (h : Opens w uid a) : unseen counts w a uid = 0 := if_pos h

theorem unseen_of_not_opens {counts : Uid → ℕ} {w : World} {a : Action} {uid : Uid}
    (h : ¬ Opens w uid a) : unseen counts w a uid =
      counts uid + (lands w a).toList.countP (Call.onNotif fun n => decide (n.user = uid)) :=
  if_neg h

/-- A step keeps the badges right exactly when nobody opens the screen who has got a
notification. -/
theorem badgesRight_step {u : World × (Uid → ℕ)} {a : Action} (hu : Reachable watched u)
    (ha : Enabled u.1 a) (hright : BadgesRight u) :
    OpensUnnotified u a ↔ BadgesRight (watched.perform u a) := by
  have hnext : Reachable app (perform u.1 a) :=
    (Run.single (S := app) ha).reachable hu.forget
  rw [badgesRight_iff (u := watched.perform u a) hnext]
  rw [badgesRight_iff hu.forget] at hright
  show _ ↔ ∀ uid, ((perform u.1 a).store.notifs.count fun n => decide (n.user = uid)) =
    unseen u.2 u.1 a uid
  have hstep : ∀ uid, ((perform u.1 a).store.notifs.count fun n => decide (n.user = uid)) =
      u.2 uid + (lands u.1 a).toList.countP (Call.onNotif fun n => decide (n.user = uid)) := by
    intro uid
    rw [notifs_perform ha, hright]
  cases a with
  | openNotifications session =>
      constructor
      · intro hnone uid
        by_cases hopens : Opens u.1 uid (.openNotifications session)
        · rw [unseen_of_opens hopens]
          refine List.countP_eq_zero.mpr fun d hd => ?_
          have hother : d.data.user ≠ uid := fun heq => hnone d hd (heq ▸ hopens)
          simpa using hother
        · rw [hstep, unseen_of_not_opens hopens]
      · intro hall d hd huser
        have hopens : Opens u.1 d.data.user (.openNotifications session) := huser
        have hzero := (hall d.data.user).trans (unseen_of_opens hopens)
        exact absurd (List.countP_eq_zero.mp hzero d hd) (by simp)
  | _ =>
      refine iff_of_true trivial fun uid => ?_
      rw [hstep, unseen_of_not_opens]
      exact fun h => h

/-- All along a run every badge shows the number of unseen notifications, exactly when the
screen is opened only by users who have never got one. -/
theorem badge_counts_unseen {trace : List ((World × (Uid → ℕ)) × Action)}
    {u : World × (Uid → ℕ)} (run : Run watched watched.init trace u) :
    (∀ v ∈ visited trace u, BadgesRight v) ↔ Meets OpensUnnotified trace := by
  refine run.forall_visited_iff ⟨[], .nil⟩ ?_ fun v a hv hright ha => ?_
  · exact (badgesRight_iff (u := watched.init) ⟨[], .nil⟩).mpr fun _ => rfl
  · exact badgesRight_step hv ha hright

namespace Scenario

/-- A provider looks before anything has happened, and then makes an offer. -/
def openedEarly : List Action :=
  posted ++ [.openNotifications 0, .openNotifications 2] ++ visit 2 0 [] ++ submit 0 1 [] sixty ++
    [.write 1, .write 1]

/-- The owner looks at the notifications of both offers. -/
def openedLate : List Action :=
  offered ++ [.openNotifications 0]

end Scenario

/-- The owner has looked before the offer and is shown one notification. -/
theorem badge_counts_unseen_openedEarly :
    badge ((watched.final watched.init Scenario.openedEarly).1.store.notifs.whereEqualTo
        Notif.user 1) = 1 ∧
      ∀ v ∈ visited (watched.steps watched.init Scenario.openedEarly)
        (watched.final watched.init Scenario.openedEarly), BadgesRight v :=
  ⟨by decide +kernel,
    (badge_counts_unseen (watched.run_steps _ Scenario.openedEarly (by decide +kernel))).mpr
      (by decide +kernel)⟩

/-- The badge still shows both notifications after the owner has looked at them. -/
theorem badge_wrong_reachable : ¬ ∀ u, Reachable watched u → BadgesRight u := by
  intro h
  have htwo : badge ((watched.final watched.init Scenario.openedLate).1.store.notifs.whereEqualTo
      Notif.user 1) = 2 := by
    decide +kernel
  have hzero : (watched.final watched.init Scenario.openedLate).2 1 = 0 := by decide +kernel
  have hright := h _ ⟨_, watched.run_steps _ Scenario.openedLate (by decide +kernel)⟩ 1 _ (.refl _)
  rw [htwo, hzero] at hright
  exact absurd hright (by decide)

end Oun
