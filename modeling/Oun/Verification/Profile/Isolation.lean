import Oun.Verification.Profile.Sources

/-! # What a user sees and who was signed in before

As long as no draw finds a variable that a fetch of an earlier session was the last to assign,
a session shows what it would show in a process of its own. -/

namespace Oun

open Firestore Regex Future Transition

/-- What is drawn for a user is unassigned, or assigned last by a fetch of this session. -/
def DrawsCurrent (u : AppProcess × Trail) : AppProcess.Event → Prop
  | .draw i => u.1.user.isSome →
      ∀ b ∈ u.1.builders[i]?, ∀ w ∈ u.2.writers b.slot, w.current = true
  | _ => True

instance (u : AppProcess × Trail) (event : AppProcess.Event) :
    Decidable (DrawsCurrent u event) := by
  apply AppProcess.Event.casesOn (motive := fun e => Decidable (DrawsCurrent u e)) event <;>
    intros <;> unfold DrawsCurrent <;> infer_instance

/-- A new process in which only this session takes place. -/
def alone (ud : Snapshot) (uid : Uid) (own : List AppProcess.Event) : AppProcess :=
  own.foldl (AppProcess.perform fun _ => ud) { AppProcess.initial with user := some uid }

theorem alone_append (ud : Snapshot) (uid : Uid) (own : List AppProcess.Event)
    (event : AppProcess.Event) :
    alone ud uid (own ++ [event]) =
      (alone ud uid own).perform (fun _ => ud) event := by
  simp [alone, List.foldl_append]

/-- The process looks to its user as the other does, where variables of earlier sessions do
not count. -/
structure LooksLike (p q : AppProcess) (writers : Slot → Option Writer) : Prop where
  user : p.user = q.user
  builders : p.builders = q.builders
  draws : ∀ s, (∀ w ∈ writers s, w.current = true) → s.draws p.vars = s.draws q.vars

/-- A signed-in user sees what the session would show alone; between two sessions no writer is of
the present session. -/
structure SessionAlone (docs : Uid → Snapshot) (u : AppProcess × Trail) : Prop where
  during : ∀ uid, u.1.user = some uid →
    LooksLike u.1 (alone (docs uid) uid u.2.own) u.2.writers
  between : u.1.user = none → ∀ s w, u.2.writers s = some w → w.current = false

/-! ## One step -/

/-- The same answer makes the same of both. -/
theorem LooksLike.answer {p q : AppProcess} {writers : Slot → Option Writer}
    (h : LooksLike p q writers) (uid : Uid) (i : ℕ) (b : Builder) (ud : Snapshot) (ok : Bool) :
    LooksLike (p.answer i b ud ok) (q.answer i b ud ok)
      (wrote writers ⟨uid, true⟩ b.slot ud ok) := by
  refine ⟨h.user, ?_, ?_⟩
  · simp only [AppProcess.answer, h.builders]
  · intro s hcurrent
    simp only [AppProcess.answer]
    by_cases hassigns : (ok && b.slot.assigns ud s) = true
    · obtain ⟨rfl, hfetched⟩ := Bool.and_eq_true_iff.mp hassigns
      simp only [Slot.draws_fetch, if_pos hfetched]
    · rw [wrote_of_not_assigns hassigns] at hcurrent
      rw [Slot.draws_of_not_assigns _ hassigns, Slot.draws_of_not_assigns _ hassigns]
      exact h.draws s hcurrent

/-- A late answer reaches only variables that do not count afterwards. -/
theorem LooksLike.answerLate {p q : AppProcess} {writers : Slot → Option Writer}
    (h : LooksLike p q writers) (j : ℕ) (f : LateFetch) (ud : Snapshot) (ok : Bool) :
    LooksLike (p.answerLate j f ud ok) q (wrote writers ⟨f.uid, false⟩ f.slot ud ok) := by
  refine ⟨h.user, h.builders, ?_⟩
  intro s hcurrent
  by_cases hassigns : (ok && f.slot.assigns ud s) = true
  · rw [wrote_of_assigns hassigns] at hcurrent
    exact absurd (hcurrent _ rfl) (by simp)
  · rw [wrote_of_not_assigns hassigns] at hcurrent
    simp only [AppProcess.answerLate]
    rw [Slot.draws_of_not_assigns _ hassigns]
    exact h.draws s hcurrent

theorem LooksLike.draw {p q : AppProcess} {writers : Slot → Option Writer}
    (h : LooksLike p q writers) (i : ℕ) (b : Builder)
    (hcurrent : ∀ w ∈ writers b.slot, w.current = true) :
    LooksLike (p.draw i b) (q.draw i b) writers := by
  refine ⟨h.user, ?_, h.draws⟩
  simp only [AppProcess.draw, h.builders, h.draws b.slot hcurrent]

theorem LooksLike.leave {p q : AppProcess} {writers : Slot → Option Writer}
    (h : LooksLike p q writers) (tab : Tab) : LooksLike (p.leave tab) (q.leave tab) writers :=
  ⟨h.user, by simp only [AppProcess.leave, h.builders], h.draws⟩

theorem LooksLike.build {p q : AppProcess} {writers : Slot → Option Writer}
    (h : LooksLike p q writers) (tab : Tab) : LooksLike (p.build tab) (q.build tab) writers :=
  ⟨h.user, by simp only [AppProcess.build, (h.leave tab).builders, h.user], h.draws⟩

/-- A step of a signed-in user keeps the session as it would be alone. -/
theorem sessionAlone_of_user {docs : Uid → Snapshot} {p : AppProcess} {t : Trail} {uid : Uid}
    {event : AppProcess.Event} (huser : p.user = some uid)
    (h : LooksLike p (alone (docs uid) uid t.own) t.writers)
    (hin : ∀ uid, event ≠ .signIn uid) (hout : event ≠ .signOut)
    (hcurrent : DrawsCurrent (p, t) event) :
    LooksLike (p.perform docs event) (alone (docs uid) uid (ownAfter t.own event))
      (writersAfter docs t.writers p event) := by
  have hq : (alone (docs uid) uid t.own).user = some uid := h.user ▸ huser
  cases event with
  | signIn uid => exact absurd rfl (hin uid)
  | signOut => exact absurd rfl hout
  | build tab =>
      simp only [ownAfter, alone_append]
      exact h.build tab
  | leave tab =>
      simp only [ownAfter, alone_append]
      exact h.leave tab
  | answer i ok =>
      simp only [ownAfter, alone_append, AppProcess.perform, AppProcess.withBuilder, writersAfter,
        huser, hq, ← h.builders]
      cases p.builders[i]? with
      | none => exact h
      | some b => exact h.answer uid i b (docs uid) ok
  | answerLate j ok =>
      simp only [ownAfter, AppProcess.perform, writersAfter]
      cases p.late[j]? with
      | none => exact h
      | some f => exact h.answerLate j f (docs f.uid) ok
  | draw i =>
      simp only [ownAfter, alone_append, AppProcess.perform, AppProcess.withBuilder, writersAfter,
        ← h.builders]
      cases hb : p.builders[i]? with
      | none => exact h
      | some b => exact h.draw i b (hcurrent (by simp [huser]) b hb)
  | update edit =>
      simp only [ownAfter, alone_append]
      have hedited : LooksLike { p with myUser := edit.updateUserValue p.myUser }
          { alone (docs uid) uid t.own with
            myUser := edit.updateUserValue (alone (docs uid) uid t.own).myUser } t.writers :=
        ⟨h.user, h.builders, h.draws⟩
      exact hedited.build .profile

/-! ## Whole runs -/

theorem AppProcess.user_perform {docs : Uid → Snapshot} {p : AppProcess}
    {event : AppProcess.Event} (hin : ∀ uid, event ≠ .signIn uid) (hout : event ≠ .signOut) :
    (p.perform docs event).user = p.user := by
  cases event with
  | signIn uid => exact absurd rfl (hin uid)
  | signOut => exact absurd rfl hout
  | answer i ok =>
      simp only [perform, withBuilder]
      split
      · split <;> rename_i heq <;> exact heq.symm ▸ rfl
      · rfl
  | answerLate j ok =>
      simp only [perform]
      split <;> rfl
  | draw i =>
      simp only [perform, withBuilder]
      split <;> rfl
  | _ => rfl

theorem sessionAlone_signIn {docs : Uid → Snapshot} {p : AppProcess} {t : Trail} (uid : Uid)
    (hsourced : Sourced docs p.vars t.writers)
    (hwriters : ∀ s w, t.writers s = some w → w.current = false) :
    LooksLike { p with user := some uid, builders := [] } (alone (docs uid) uid []) t.writers := by
  refine ⟨rfl, rfl, ?_⟩
  intro s hcurrent
  cases hw : t.writers s with
  | none => exact hsourced.unwritten s hw
  | some w =>
      have htrue := hcurrent w (Option.mem_def.mpr hw)
      exact absurd htrue (by simp [hwriters s w hw])

/-- LOGOUT ends the present session for all writers. -/
theorem writersAfter_signOut (docs : Uid → Snapshot) (p : AppProcess)
    {writers : Slot → Option Writer} {s : Slot} {w : Writer}
    (hw : writersAfter docs writers p .signOut s = some w) : w.current = false := by
  obtain ⟨w', -, rfl⟩ := Option.map_eq_some_iff.mp hw
  rfl

/-- Between two sessions no writer comes to be of the present session. -/
theorem writersAfter_of_none {docs : Uid → Snapshot} {p : AppProcess} {t : Trail}
    {event : AppProcess.Event} (huser : p.user = none)
    (hwriters : ∀ s w, t.writers s = some w → w.current = false) {s : Slot} {w : Writer}
    (hw : writersAfter docs t.writers p event s = some w) : w.current = false := by
  cases event with
  | signOut => exact writersAfter_signOut docs p hw
  | answer i ok =>
      simp only [writersAfter, huser] at hw
      cases hb : p.builders[i]? <;> exact hwriters s w (by simpa only [hb] using hw)
  | answerLate j ok =>
      simp only [writersAfter] at hw
      cases hf : p.late[j]? with
      | none => exact hwriters s w (by simpa only [hf] using hw)
      | some f =>
          rcases wrote_eq_some (by simpa only [hf] using hw) with rfl | hw
          · rfl
          · exact hwriters s w hw
  | _ => exact hwriters s w hw

theorem sessionAlone_between {docs : Uid → Snapshot} {p : AppProcess} {t : Trail}
    {event : AppProcess.Event} (hsourced : Sourced docs p.vars t.writers)
    (h : SessionAlone docs (p, t)) (huser : p.user = none) :
    SessionAlone docs (p.perform docs event, t.record docs p event) := by
  have hwriters := h.between huser
  refine ⟨fun uid hsome => ?_, fun _ s w => writersAfter_of_none huser hwriters⟩
  by_cases hin : ∃ uid, event = .signIn uid
  · obtain ⟨uid', rfl⟩ := hin
    obtain rfl := Option.some.inj hsome
    exact sessionAlone_signIn uid' hsourced hwriters
  · have hnone : (p.perform docs event).user = none := by
      by_cases hout : event = .signOut
      · exact hout ▸ rfl
      · exact (AppProcess.user_perform (fun uid heq => hin ⟨uid, heq⟩) hout).trans huser
    exact absurd (hnone.symm.trans hsome) (by simp)

theorem sessionAlone {v : Validators} {docs : Uid → Snapshot}
    {trace : List ((AppProcess × Trail) × AppProcess.Event)} {u : AppProcess × Trail}
    (run : Run (trailed v docs) (trailed v docs).init trace u)
    (hdraws : Meets DrawsCurrent trace) : SessionAlone docs u := by
  refine run.invariant_init hdraws ⟨nofun, fun _ => nofun⟩ ?_
  rintro ⟨p, t⟩ event hreachable h henabled hcurrent
  show SessionAlone docs (p.perform docs event, t.record docs p event)
  cases huser : p.user with
  | none => exact sessionAlone_between (sourced hreachable) h huser
  | some uid =>
      have hlooks := h.during uid huser
      by_cases hout : event = .signOut
      · subst hout
        exact ⟨nofun, fun _ _ _ => writersAfter_signOut docs p⟩
      · have hin : ∀ uid, event ≠ .signIn uid := by
          rintro uid rfl
          exact absurd (huser.symm.trans henabled.1) (by simp)
        have hnext : (p.perform docs event).user = some uid :=
          (AppProcess.user_perform hin hout).trans huser
        refine ⟨fun uid' huid' => ?_, fun hnone => absurd (hnext.symm.trans hnone) (by simp)⟩
        obtain rfl : uid = uid' := Option.some.inj (hnext.symm.trans huid')
        exact sessionAlone_of_user huser hlooks hin hout hcurrent

/-- Two runs that end in sessions of the same user, with the same document and the same events
of that session, show the same, whatever happened before and whenever the fetches of earlier
sessions are answered. -/
theorem profile_isolated {v : Validators} {docs₁ docs₂ : Uid → Snapshot}
    {trace₁ trace₂ : List ((AppProcess × Trail) × AppProcess.Event)}
    {u₁ u₂ : AppProcess × Trail} (uid : Uid)
    (run₁ : Run (trailed v docs₁) (trailed v docs₁).init trace₁ u₁)
    (run₂ : Run (trailed v docs₂) (trailed v docs₂).init trace₂ u₂)
    (hdraws₁ : Meets DrawsCurrent trace₁) (hdraws₂ : Meets DrawsCurrent trace₂)
    (huser₁ : u₁.1.user = some uid) (huser₂ : u₂.1.user = some uid)
    (hdocs : docs₁ uid = docs₂ uid) (hown : u₁.2.own = u₂.2.own) (slot : Slot) (shown : Text) :
    u₁.1.Shows slot shown ↔ u₂.1.Shows slot shown := by
  have h₁ := (sessionAlone run₁ hdraws₁).during uid huser₁
  have h₂ := (sessionAlone run₂ hdraws₂).during uid huser₂
  have hbuilders : u₁.1.builders = u₂.1.builders := by
    rw [h₁.builders, h₂.builders, hdocs, hown]
  simp only [AppProcess.Shows, hbuilders]

namespace Scenario

/-- The packages' predicates; no scenario asks for the email. -/
def validators : Validators where
  isAlpha value := !value.isEmpty && value.all fun u =>
    (0x41 ≤ u && u ≤ 0x5A) || (0x61 ≤ u && u ≤ 0x7A)
  isNumeric value := !value.isEmpty && value.all fun u => 0x30 ≤ u && u ≤ 0x39
  emailValidate _ := false

def noura : Text := text ['n', 'o', 'u', 'r', 'a']
def sara : Text := text ['s', 'a', 'r', 'a']

/-- A document as sign-up writes it. -/
def document (name : Text) : Snapshot
  | .name => some name
  | .phone => some (text ['0', '5', '5', '1', '2', '3', '4', '5', '6', '7'])
  | .email => some (name ++ text ['@', 'o', 'u', 'n', '.', 's', 'a'])

def bothDocuments : Uid → Snapshot
  | 1 => document noura
  | 2 => document sara
  | _ => fun _ => none

def secondDocument : Uid → Snapshot
  | 2 => document sara
  | _ => fun _ => none

/-- The second user's document is missing. -/
def firstDocument : Uid → Snapshot
  | 1 => document noura
  | _ => fun _ => none

abbrev shared := trailed validators bothDocuments

abbrev unshared := trailed validators secondDocument

/-- A session of the second user in which the profile page shows a name. -/
def readsName : List AppProcess.Event :=
  [.signIn 2, .build .home, .answer 0 true, .build .profile, .answer 1 true, .draw 1]

/-- The first user leaves three fetches behind. One is answered before the profile page is opened
with nobody signed in, another one in the session of the second user. -/
def overlapping : List AppProcess.Event :=
  [.signIn 1, .build .profile, .signOut, .answerLate 0 true, .build .profile, .draw 0,
    .leave .profile, .signIn 2, .build .home, .answer 0 true, .build .profile, .answerLate 1 true,
    .answer 1 true, .draw 1]

/-- The first user has read the profile and logged out. -/
def following : List AppProcess.Event :=
  [.signIn 1, .build .profile, .answer 0 true, .draw 0, .signOut] ++ readsName

end Scenario

/-- After the first user, of whom a fetch is still answered, the second sees the same name as
without them: her own. -/
theorem profile_isolated_overlapping :
    (Scenario.shared.final Scenario.shared.init Scenario.overlapping).1.Shows .name
        Scenario.sara ∧
      ((Scenario.shared.final Scenario.shared.init Scenario.overlapping).1.Shows .name
          Scenario.sara ↔
        (Scenario.unshared.final Scenario.unshared.init Scenario.readsName).1.Shows .name
          Scenario.sara) :=
  ⟨by decide +kernel,
    profile_isolated 2
      (Scenario.shared.run_steps _ Scenario.overlapping (by decide +kernel))
      (Scenario.unshared.run_steps _ Scenario.readsName (by decide +kernel))
      (by decide +kernel) (by decide +kernel) (by decide +kernel) (by decide +kernel) rfl
      (by decide +kernel) .name Scenario.sara⟩

/-- A user without a document is shown the name of the one before. -/
theorem profile_leak_reachable : ¬ ∀ (docs₁ docs₂ : Uid → Snapshot) (u₁ u₂ : AppProcess × Trail)
    (uid : Uid), Reachable (trailed Scenario.validators docs₁) u₁ →
      Reachable (trailed Scenario.validators docs₂) u₂ →
      u₁.1.user = some uid → u₂.1.user = some uid → docs₁ uid = docs₂ uid →
      u₁.2.own = u₂.2.own → ∀ slot shown, u₁.1.Shows slot shown ↔ u₂.1.Shows slot shown := by
  intro h
  have hruns := h Scenario.firstDocument Scenario.firstDocument _ _ 2
    ⟨_, (trailed Scenario.validators Scenario.firstDocument).run_steps _ Scenario.following
      (by decide +kernel)⟩
    ⟨_, (trailed Scenario.validators Scenario.firstDocument).run_steps _ Scenario.readsName
      (by decide +kernel)⟩
    (by decide +kernel) (by decide +kernel) rfl (by decide +kernel) .name Scenario.noura
  revert hruns
  decide +kernel

end Oun
