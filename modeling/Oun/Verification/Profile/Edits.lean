import Oun.Library.Pool
import Oun.Verification.Profile.Isolation

/-! # Profile edits and what the page shows afterwards

The edit pages write `UserData.myUser` and the profile page reads the document, so that an
update is read back only if it changes nothing. -/

namespace Oun

open Firestore Regex Future Transition

/-- Every field that the profile page shows is the one that its user has updated last, or else
the stored one. -/
def ReadsBack (docs : Uid → Snapshot) (u : AppProcess × Trail) : Prop :=
  ∀ uid, u.1.user = some uid → ∀ field shown, u.1.Shows (Field.slot field) shown →
    (u.2.updates uid field).or (docs uid field) = some shown

/-- The profile page of a user draws what a fetch of this user was the last to assign. -/
def DrawsOwn (u : AppProcess × Trail) : AppProcess.Event → Prop
  | .draw i => ∀ b ∈ u.1.builders[i]?, b.slot ≠ .greeting → ∀ uid ∈ u.1.user,
      ∃ w ∈ u.2.writers b.slot, w.uid = uid
  | _ => True

instance (u : AppProcess × Trail) (event : AppProcess.Event) :
    Decidable (DrawsOwn u event) := by
  apply AppProcess.Event.casesOn (motive := fun e => Decidable (DrawsOwn u e)) event <;>
    intros <;> unfold DrawsOwn <;> infer_instance

/-- A field that the profile page draws has not been updated, or at last to the value that it
has had all along. -/
def DrawsUnedited (docs : Uid → Snapshot) (u : AppProcess × Trail) : AppProcess.Event → Prop
  | .draw i => ∀ b ∈ u.1.builders[i]?, b.slot ≠ .greeting → ∀ uid ∈ u.1.user,
      ∀ value ∈ u.2.updates uid b.slot.field, docs uid b.slot.field = some value
  | _ => True

instance (docs : Uid → Snapshot) (u : AppProcess × Trail) (event : AppProcess.Event) :
    Decidable (DrawsUnedited docs u event) := by
  apply AppProcess.Event.casesOn (motive := fun e => Decidable (DrawsUnedited docs u e)) event <;>
    intros <;> unfold DrawsUnedited <;> infer_instance

/-- What the profile page shows of a user is stored. -/
def ShowsStored (docs : Uid → Snapshot) (p : AppProcess) : Prop :=
  ∀ uid, p.user = some uid → ∀ field shown, p.Shows (Field.slot field) shown →
    docs uid field = some shown

theorem Field.slot_ne_greeting (field : Field) : field.slot ≠ .greeting := by
  cases field <;> nofun

@[simp] theorem Field.field_slot (field : Field) : field.slot.field = field := by
  cases field <;> rfl

theorem Slot.slot_field {slot : Slot} (h : slot ≠ .greeting) : slot.field.slot = slot := by
  cases slot <;> first | exact absurd rfl h | rfl

theorem Slot.format_of_ne {slot : Slot} (h : slot ≠ .greeting) (value : Text) :
    slot.format value = value := by
  cases slot <;> first | exact absurd rfl h | rfl

/-! ## What a step shows -/

theorem AppProcess.shows_leave {p : AppProcess} {tab : Tab} {slot : Slot} {shown : Text}
    (h : (p.leave tab).Shows slot shown) : p.Shows slot shown ∧ slot.tab ≠ tab := by
  obtain ⟨_, hmem, hmounted, hslot, hshown⟩ := h
  obtain ⟨b, hb, rfl⟩ := List.mem_map.mp hmem
  unfold Builder.leaveTab at hmounted hslot hshown
  split at hmounted
  · simp at hmounted
  · rename_i htab
    rw [if_neg htab] at hslot hshown
    exact ⟨⟨b, hb, hmounted, hslot, hshown⟩, hslot ▸ htab⟩

/-- A page that is built anew shows nothing yet. -/
theorem AppProcess.shows_build {p : AppProcess} {tab : Tab} {slot : Slot} {shown : Text}
    (h : (p.build tab).Shows slot shown) : p.Shows slot shown ∧ slot.tab ≠ tab := by
  obtain ⟨b, hmem, hmounted, hslot, hshown⟩ := h
  rcases List.mem_append.mp hmem with hmem | hmem
  · exact shows_leave ⟨b, hmem, hmounted, hslot, hshown⟩
  · obtain ⟨_, -, rfl⟩ := List.mem_map.mp hmem
    simp at hshown

theorem AppProcess.shows_answer {docs : Uid → Snapshot} {p : AppProcess} {i : ℕ} {ok : Bool}
    {slot : Slot} {shown : Text} (h : (p.perform docs (.answer i ok)).Shows slot shown) :
    p.Shows slot shown := by
  simp only [perform, withBuilder] at h
  split at h
  · rename_i b hb
    split at h
    · obtain ⟨b', hmem, hmounted, hslot, hshown⟩ := h
      rcases List.mem_or_eq_of_mem_set hmem with hmem | rfl
      · exact ⟨b', hmem, hmounted, hslot, hshown⟩
      · exact ⟨b, List.mem_of_getElem? hb, hmounted, hslot, hshown⟩
    · exact h
  · exact h

theorem AppProcess.perform_draw {docs : Uid → Snapshot} {p : AppProcess} {i : ℕ} {b : Builder}
    (hb : p.builders[i]? = some b) : p.perform docs (.draw i) = p.draw i b := by
  simp only [perform, withBuilder, hb]

theorem AppProcess.shows_draw {docs : Uid → Snapshot} {p : AppProcess} {i : ℕ} {slot : Slot}
    {shown : Text} (h : (p.perform docs (.draw i)).Shows slot shown) :
    p.Shows slot shown ∨
      ∃ b, p.builders[i]? = some b ∧ b.slot = slot ∧ shown = slot.draws p.vars := by
  simp only [perform, withBuilder] at h
  split at h
  · rename_i b hb
    obtain ⟨b', hmem, hmounted, hslot, hshown⟩ := h
    rcases List.mem_or_eq_of_mem_set hmem with hmem | rfl
    · exact .inl ⟨b', hmem, hmounted, hslot, hshown⟩
    · obtain rfl : b.slot = slot := hslot
      exact .inr ⟨b, hb, rfl, (Option.some.inj hshown).symm⟩
  · exact .inl h

/-- Apart from draws nothing new is shown, nothing when a user comes or goes, and an update leaves
only the greeting. -/
theorem AppProcess.shows_perform {docs : Uid → Snapshot} {p : AppProcess}
    {event : AppProcess.Event} {slot : Slot} {shown : Text}
    (h : (p.perform docs event).Shows slot shown) (hdraw : ∀ i, event ≠ .draw i) :
    p.Shows slot shown ∧ (p.perform docs event).user = p.user ∧
      ∀ edit, event = .update edit → slot = .greeting := by
  have huser : (∀ uid, event ≠ .signIn uid) → event ≠ .signOut →
      (p.perform docs event).user = p.user := AppProcess.user_perform
  cases event with
  | signIn uid =>
      obtain ⟨b, hmem, -⟩ := h
      exact absurd hmem List.not_mem_nil
  | signOut =>
      obtain ⟨b, hmem, -⟩ := h
      exact absurd hmem List.not_mem_nil
  | build tab => exact ⟨(shows_build h).1, rfl, by simp⟩
  | leave tab => exact ⟨(shows_leave h).1, rfl, by simp⟩
  | answer i ok => exact ⟨shows_answer h, huser nofun nofun, by simp⟩
  | answerLate j ok =>
      refine ⟨?_, huser nofun nofun, by simp⟩
      simp only [perform] at h
      split at h <;> exact h
  | draw i => exact absurd rfl (hdraw i)
  | update edit =>
      obtain ⟨hshows, htab⟩ := shows_build h
      refine ⟨hshows, rfl, fun _ _ => ?_⟩
      cases slot <;> first | rfl | exact absurd rfl htab

/-! ## What is shown is stored -/

theorem ShowsStored.step {docs : Uid → Snapshot} {p : AppProcess} {t : Trail}
    {event : AppProcess.Event} (h : ShowsStored docs p) (hsourced : Sourced docs p.vars t.writers)
    (hown : DrawsOwn (p, t) event) : ShowsStored docs (p.perform docs event) := by
  intro uid huid field shown hshows
  by_cases hdraw : ∃ i, event = .draw i
  · obtain ⟨i, rfl⟩ := hdraw
    have huser : (p.perform docs (.draw i)).user = p.user := AppProcess.user_perform nofun nofun
    rw [huser] at huid
    rcases AppProcess.shows_draw hshows with hshows | ⟨b, hb, hslot, rfl⟩
    · exact h uid huid field shown hshows
    · obtain ⟨w, hw, rfl⟩ := hown b hb (hslot ▸ field.slot_ne_greeting) uid huid
      obtain ⟨value, hvalue, hdraws⟩ := hsourced.written b.slot w hw
      rw [hslot, Field.field_slot] at hvalue
      rw [hslot, Slot.format_of_ne field.slot_ne_greeting] at hdraws
      exact hdraws ▸ hvalue
  · obtain ⟨hshows, huser, -⟩ := AppProcess.shows_perform hshows fun i h => hdraw ⟨i, h⟩
    exact h uid (huser ▸ huid) field shown hshows

theorem showsStored {v : Validators} {docs : Uid → Snapshot}
    {trace : List ((AppProcess × Trail) × AppProcess.Event)} {u : AppProcess × Trail}
    (run : Run (trailed v docs) (trailed v docs).init trace u) (hown : Meets DrawsOwn trace) :
    ShowsStored docs u.1 := by
  refine run.invariant_init (I := fun u => ShowsStored docs u.1) hown ?_ ?_
  · rintro uid huid
    cases huid
  · intro u event hreachable h _ hstep
    exact h.step (sourced hreachable) hstep

/-! ## What is read back -/

theorem updates_record {docs : Uid → Snapshot} {p : AppProcess} {t : Trail}
    {event : AppProcess.Event} (h : ∀ edit, event ≠ .update edit) :
    (t.record docs p event).updates = t.updates := by
  cases event with
  | update edit => exact absurd rfl (h edit)
  | _ => rfl

/-- A step other than a draw keeps what is shown read back. -/
theorem ReadsBack.step {docs : Uid → Snapshot} {p : AppProcess} {t : Trail}
    {event : AppProcess.Event} (h : ReadsBack docs (p, t)) (hdraw : ∀ i, event ≠ .draw i) :
    ReadsBack docs (p.perform docs event, t.record docs p event) := by
  intro uid huid field shown hshows
  obtain ⟨hshows, huser, hupdate⟩ := AppProcess.shows_perform hshows hdraw
  have hedit : ∀ edit, event ≠ .update edit := fun edit heq =>
    field.slot_ne_greeting (hupdate edit heq)
  rw [updates_record hedit]
  exact h uid (huser.symm.trans huid) field shown hshows

/-- A draw keeps what is shown read back exactly when it draws no edited field. -/
theorem readsBack_draw {v : Validators} {docs : Uid → Snapshot} {p : AppProcess} {t : Trail}
    {i : ℕ} (h : ReadsBack docs (p, t)) (henabled : (AppProcess.Event.draw i).Enabled v p)
    (hstored : ShowsStored docs (p.perform docs (.draw i))) :
    DrawsUnedited docs (p, t) (.draw i) ↔
      ReadsBack docs (p.perform docs (.draw i), t.record docs p (.draw i)) := by
  have huser : (p.perform docs (.draw i)).user = p.user := AppProcess.user_perform nofun nofun
  constructor
  · intro hunedited uid huid field shown hshows
    replace hshows : (p.perform docs (.draw i)).Shows field.slot shown := hshows
    have hdocs := hstored uid huid field shown hshows
    rcases AppProcess.shows_draw hshows with hshows | ⟨b, hb, hslot, -⟩
    · exact h uid (huser.symm.trans huid) field shown hshows
    · show (t.updates uid field).or (docs uid field) = some shown
      cases hvalue : t.updates uid field with
      | none => exact hdocs
      | some value =>
          have hsame := hunedited b hb (hslot ▸ field.slot_ne_greeting) uid (huser ▸ huid) value
          rw [hslot, Field.field_slot] at hsame
          exact (hsame hvalue).symm.trans hdocs
  · intro hback b hb hslot uid huid value hvalue
    obtain ⟨b', hb', hwaits⟩ := henabled
    obtain rfl : b' = b := Option.some.inj (hb'.symm.trans hb)
    have hmounted : b'.mounted = true := by
      simp only [Builder.waits, Bool.and_eq_true] at hwaits
      exact hwaits.1.1
    have hshows : (p.perform docs (.draw i)).Shows b'.slot.field.slot (b'.slot.draws p.vars) := by
      rw [Slot.slot_field hslot, AppProcess.perform_draw hb]
      exact ⟨_, Pool.mem_set_self _ hb, hmounted, rfl, rfl⟩
    have huid' := huser.trans huid
    have hdocs := hstored uid huid' _ _ hshows
    have hexpected := hback uid huid' _ _ hshows
    replace hexpected : (t.updates uid b'.slot.field).or (docs uid b'.slot.field) =
        some (b'.slot.draws p.vars) := hexpected
    rw [Option.mem_def.mp hvalue, Option.some_or] at hexpected
    rw [hdocs, hexpected]

/-- As long as the profile page of a user draws what a fetch of this user has assigned: it reads
all updates back exactly when it draws no edited field, and what it shows of a field never
changes. -/
theorem edits_read_back {v : Validators} {docs : Uid → Snapshot}
    {trace : List ((AppProcess × Trail) × AppProcess.Event)} {u : AppProcess × Trail}
    (run : Run (trailed v docs) (trailed v docs).init trace u) (hown : Meets DrawsOwn trace) :
    ((∀ w ∈ visited trace u, ReadsBack docs w) ↔ Meets (DrawsUnedited docs) trace) ∧
      ∀ w ∈ visited trace u, ∀ uid, w.1.user = some uid → u.1.user = some uid → ∀ field x y,
        w.1.Shows (Field.slot field) x → u.1.Shows (Field.slot field) y → x = y := by
  constructor
  · refine run.forall_visited_iff_of_meets hown
      (J := fun w => Reachable (trailed v docs) w ∧ ShowsStored docs w.1)
      ⟨⟨[], .nil⟩, showsStored .nil (meets_nil _)⟩ nofun ?_ ?_
    · intro w event hw henabled hstep
      exact ⟨(Run.single henabled).reachable hw.1, hw.2.step (sourced hw.1) hstep⟩
    · rintro ⟨p, t⟩ event hw hback henabled hstep
      by_cases hdraw : ∃ i, event = .draw i
      · obtain ⟨i, rfl⟩ := hdraw
        exact readsBack_draw (v := v) hback henabled
          (hw.2.step (sourced hw.1) hstep)
      · have hnodraw : ∀ i, event ≠ .draw i := fun i h => hdraw ⟨i, h⟩
        refine iff_of_true ?_ (hback.step hnodraw)
        cases event with
        | draw i => exact absurd rfl (hnodraw i)
        | _ => trivial
  · intro w hw uid huid huid' field x y hx hy
    obtain ⟨front, back, rfl, hfront, -⟩ := run.split_visited hw
    have hdocs := showsStored hfront ((meets_append _ _ _).mp hown).1 uid huid field x hx
    have hdocs' := showsStored run hown uid huid' field y hy
    exact Option.some.inj (hdocs.symm.trans hdocs')

namespace Scenario

/-- The user logs in and reads the profile. -/
def readsProfile : List AppProcess.Event :=
  [.signIn 2, .build .profile, .answer 0 true, .answer 1 true, .answer 2 true, .draw 0, .draw 1,
    .draw 2]

/-- She gives both her names. -/
def renamed : List AppProcess.Event :=
  readsProfile ++ [.update (.name sara noura), .answer 3 true, .draw 3]

/-- She has given them at sign-up. -/
def bothNames : Uid → Snapshot
  | 2 => document (sara ++ text [' '] ++ noura)
  | _ => fun _ => none

abbrev unchanged := trailed validators bothNames

end Scenario

/-- An update that changes nothing is read back. -/
theorem edits_read_back_renamed :
    (Scenario.unchanged.final Scenario.unchanged.init Scenario.renamed).1.Shows .name
        (Edit.name Scenario.sara Scenario.noura).value ∧
      ∀ w ∈ visited (Scenario.unchanged.steps Scenario.unchanged.init Scenario.renamed)
        (Scenario.unchanged.final Scenario.unchanged.init Scenario.renamed),
        ReadsBack Scenario.bothNames w :=
  ⟨by decide +kernel,
    (edits_read_back (Scenario.unchanged.run_steps _ Scenario.renamed (by decide +kernel))
      (by decide +kernel)).1.mpr (by decide +kernel)⟩

/-- The page shows the old name after it has been changed. -/
theorem stale_name_reachable : ¬ ∀ (docs : Uid → Snapshot) trace u,
    Run (trailed Scenario.validators docs) (trailed Scenario.validators docs).init trace u →
      Meets DrawsOwn trace → ReadsBack docs u := by
  intro h
  have hback := h Scenario.bothDocuments _ _
    (Scenario.shared.run_steps _ Scenario.renamed (by decide +kernel)) (by decide +kernel) 2
    (by decide +kernel) .name Scenario.sara (by decide +kernel)
  revert hback
  decide +kernel

end Oun
