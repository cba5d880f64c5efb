import Oun.Model.Submissions
import Oun.Verification.Winner.Single

/-! # Dialogs of success and stored documents

`whenComplete` runs on failures too. The dialogs are right as long as no failure is reported
to a screen that is still there, and no success to one that is gone. -/

namespace Oun

open Firestore Regex Future Transition

/-- The stored tasks, offers and violations. -/
def stored (s : Store) : ℕ :=
  s.tasks.docs.length + s.offers.docs.length + s.violations.docs.length

/-- As many dialogs of success have been shown as documents were stored since `s`. -/
def Announced (s : Store) (d : Desk) : Prop :=
  stored s + d.announced.length = stored d.store

instance (s : Store) (d : Desk) : Decidable (Announced s d) := by
  unfold Announced; infer_instance

/-- The submission that an event belongs to. -/
def Desk.Event.submission : Desk.Event → Option ℕ
  | .answer i _ | .dismiss i | .ok i => some i
  | _ => none

/-- A failed submission leaves the texts of the user in place. -/
def Desk.Event.LeavesTexts (d : Desk) (event : Desk.Event) : Prop :=
  ∀ i ∈ event.submission, ∀ s ∈ (d.perform event).submissions[i]?, s.answer = some false →
    (d.perform event).title = d.title ∧ (d.perform event).description = d.description

instance Desk.Event.decidableLeavesTexts (d : Desk) (event : Desk.Event) :
    Decidable (event.LeavesTexts d) := by
  unfold Desk.Event.LeavesTexts; infer_instance

/-- The document of the write is announced as soon as its `add` has ended, in the case of a
task if it has succeeded. -/
def Write.announces : Write → Bool → Bool
  | .addTask _, succeeded => succeeded
  | .addOffer _, _ | .addViolation _, _ => true
  | _, _ => false

/-- A success is answered while the screen is there; when the failure of an offer or a report is
answered, or the alert about that of a task is closed, the screen is gone. -/
def Desk.Event.Truthful (d : Desk) : Desk.Event → Prop
  | .answer i succeeded => ∀ s ∈ d.submissions[i]?, s.write.announces succeeded = true →
      (succeeded = true ↔ s.screen ∉ d.left)
  | .dismiss i => ∀ s ∈ d.submissions[i]?, s.dialog = some .somethingWentWrong →
      s.screen ∈ d.left
  | _ => True

instance Desk.Event.decidableTruthful (d : Desk) (event : Desk.Event) :
    Decidable (event.Truthful d) := by
  apply Desk.Event.casesOn (motive := fun e => Decidable (e.Truthful d)) event <;> intros <;>
    unfold Desk.Event.Truthful <;> infer_instance

/-! ## What the callbacks show -/

theorem showDialog_state (dialog : Dialog) (p : Page) :
    (showDialog dialog p).2 =
      if p.mounted then { p with
        dialog := some dialog
        announced := if dialog.isSuccess then p.announced ++ [dialog] else p.announced }
      else p := by
  unfold showDialog
  split <;> rfl

theorem newTaskCompleted_state (result : Except Error Unit) (p : Page) :
    (newTaskCompleted result p).2 = (showDialog .taskAdded p).2 :=
  Chain.whenComplete_state _ _ p

theorem newTaskAnswered_ok (p : Page) :
    (newTaskAnswered (.ok ()) p).2 = (showDialog .taskAdded p).2 :=
  newTaskCompleted_state _ p

/-- A failed task raises the alert and nothing else. -/
theorem newTaskAnswered_error (e : Error) (p : Page) :
    (newTaskAnswered (.error e) p).2 = (showDialog .somethingWentWrong p).2 := by
  obtain ⟨mounted, dialog, announced⟩ := p
  cases mounted <;> rfl

theorem offerAnswered_state (answer : Except Error Unit) (p : Page) :
    (offerAnswered answer p).2 = (showDialog .offerSent p).2 :=
  Chain.whenComplete_state _ _ p

theorem reportAnswered_state (answer : Except Error Unit) (p : Page) :
    (reportAnswered answer p).2 = (showDialog .reportRecorded p).2 :=
  Chain.whenComplete_state _ _ p

theorem showDialog_announced (dialog : Dialog) (p : Page) :
    (showDialog dialog p).2.announced.length =
      p.announced.length + if p.mounted && dialog.isSuccess then 1 else 0 := by
  rw [showDialog_state]
  cases p.mounted <;> cases dialog.isSuccess <;> simp

/-- How many dialogs of success the answer to an `add` raises. -/
theorem answered_announced (write : Write) (succeeded : Bool) (p : Page) :
    (write.answered (if succeeded then .ok () else .error (.firebase "")) p).2.announced.length =
      p.announced.length + if p.mounted && write.announces succeeded then 1 else 0 := by
  cases write with
  | addTask t =>
      cases succeeded
      · simp only [Write.answered, Bool.false_eq_true, ite_false, newTaskAnswered_error]
        exact showDialog_announced .somethingWentWrong p
      · simp only [Write.answered, ite_true, newTaskAnswered_ok]
        exact showDialog_announced .taskAdded p
  | addOffer o =>
      simp only [Write.answered, offerAnswered_state]
      exact showDialog_announced .offerSent p
  | addViolation v =>
      simp only [Write.answered, reportAnswered_state]
      exact showDialog_announced .reportRecorded p
  | _ => simp [Write.answered, Write.announces]

/-- A failed `add` raises no "Task Added". -/
theorem failed_dialog (write : Write) (e : Error) {p : Page} (hp : p.dialog = none) :
    (write.answered (.error e) p).2.dialog ≠ some .taskAdded := by
  have hshow : ∀ dialog, dialog ≠ .taskAdded →
      (showDialog dialog p).2.dialog ≠ some .taskAdded := by
    intro dialog hne
    rw [showDialog_state]
    split
    · simpa using hne
    · simp [hp]
  cases write with
  | addTask t =>
      simp only [Write.answered, newTaskAnswered_error]
      exact hshow _ (by decide)
  | addOffer o =>
      simp only [Write.answered, offerAnswered_state]
      exact hshow _ (by decide)
  | addViolation v =>
      simp only [Write.answered, reportAnswered_state]
      exact hshow _ (by decide)
  | _ => simp [Write.answered, hp]

/-! ## What is stored -/

/-- The submitted writes delete nothing. -/
def Desk.Adds (d : Desk) : Prop :=
  ∀ s ∈ d.submissions, ∀ id, s.write ≠ .deleteOffer id

theorem stored_apply {write : Write} (h : ∀ id, write ≠ .deleteOffer id) (s : Store) :
    stored (write.apply s) = stored s + if write.announces true then 1 else 0 := by
  cases write with
  | addTask t =>
      simp [stored, Write.apply, Write.announces, Collection.add]
      omega
  | addOffer o =>
      simp [stored, Write.apply, Write.announces, Collection.add]
      omega
  | addViolation v =>
      simp [stored, Write.apply, Write.announces, Collection.add]
      omega
  | deleteOffer id => exact absurd rfl (h id)
  | _ => rfl

theorem Desk.withSubmission_of_get {d : Desk} {i : ℕ} {s : Submission} (f : Submission → Desk)
    (h : d.submissions[i]? = some s) : d.withSubmission i f = f s := by
  simp [Desk.withSubmission, h]

/-- What holds of all submissions still does after callbacks, if it does of the changed one. -/
theorem Desk.forall_put {P : Submission → Prop} {d : Desk} (h : ∀ s ∈ d.submissions, P s)
    (i : ℕ) {s : Submission} {p : Page} (hs : P { s with dialog := p.dialog }) :
    ∀ x ∈ (d.put i s p).submissions, P x := by
  intro x hx
  rcases List.mem_or_eq_of_mem_set hx with hx | rfl
  · exact h x hx
  · exact hs

theorem Desk.forall_submit {P : Submission → Prop} {d : Desk} (h : ∀ s ∈ d.submissions, P s)
    {screen : ℕ} {calls : List Call} (hcalls : ∀ c ∈ calls, P { screen, write := c.write }) :
    ∀ x ∈ (d.submit screen calls).submissions, P x := by
  intro x hx
  rcases List.mem_append.mp hx with hx | hx
  · exact h x hx
  · obtain ⟨c, hc, rfl⟩ := List.mem_map.mp hx
    exact hcalls c hc

theorem Desk.adds_perform {d : Desk} (h : d.Adds) (event : Desk.Event) :
    (d.perform event).Adds := by
  cases event with
  | type title description => exact h
  | leave screen => exact h
  | sendNewTask screen uid city category => exact forall_submit h (by simp [Oun.sendNewTask])
  | addOffer screen uid furniture price => exact forall_submit h (by simp [Oun.addOffer])
  | report screen uid furniture reason => exact forall_submit h (by simp [Oun.report])
  | answer i succeeded | dismiss i | ok i =>
      cases hget : d.submissions[i]? with
      | none => simpa [Desk.perform, Desk.withSubmission, hget] using h
      | some s =>
          have hs := h s (List.mem_of_getElem? hget)
          rw [Desk.perform, Desk.withSubmission_of_get _ hget]
          first
            | exact forall_put (d := d) h i hs
            | (unfold Desk.dismiss; split <;> exact forall_put h i hs)

/-! ## One step -/

private theorem balance_iff {a b : ℕ} (h : a = b) (succeeded announces mounted : Bool) :
    (announces = true → (succeeded = true ↔ mounted = true)) ↔
      a + (if mounted && announces then 1 else 0) =
        b + if succeeded && announces then 1 else 0 := by
  cases succeeded <;> cases announces <;> cases mounted <;> simp [h]

theorem announced_step {s₀ : Store} {d : Desk} {event : Desk.Event} (hadds : d.Adds)
    (henabled : event.Enabled d) (h : Announced s₀ d) :
    event.Truthful d ↔ Announced s₀ (d.perform event) := by
  unfold Announced at h
  cases event with
  | answer i succeeded =>
      obtain ⟨s, hget, -⟩ := henabled
      have hget : d.submissions[i]? = some s := hget
      have hshown : (d.answer i s succeeded).announced.length = d.announced.length +
          if decide (s.screen ∉ d.left) && s.write.announces succeeded then 1 else 0 :=
        answered_announced s.write succeeded (d.page s)
      have hstored : stored (d.answer i s succeeded).store = stored d.store +
          if succeeded && s.write.announces succeeded then 1 else 0 := by
        cases succeeded
        · rfl
        · exact stored_apply (hadds s (List.mem_of_getElem? hget)) d.store
      have htruthful : Desk.Event.Truthful d (.answer i succeeded) ↔
          (s.write.announces succeeded = true → (succeeded = true ↔ s.screen ∉ d.left)) := by
        simp [Desk.Event.Truthful, hget]
      rw [htruthful, Desk.perform, Desk.withSubmission_of_get _ hget]
      rw [Announced, hshown, hstored, ← Nat.add_assoc, ← balance_iff h]
      simp only [decide_eq_true_eq]
  | dismiss i =>
      obtain ⟨s, hget, -⟩ := henabled
      have hget : d.submissions[i]? = some s := hget
      have htruthful : Desk.Event.Truthful d (.dismiss i) ↔
          (s.dialog = some .somethingWentWrong → s.screen ∈ d.left) := by
        simp [Desk.Event.Truthful, hget]
      rw [htruthful, Desk.perform, Desk.withSubmission_of_get _ hget, Desk.dismiss]
      by_cases halert : s.dialog = some .somethingWentWrong
      · have hshown : (d.put i s (newTaskCompleted (.ok ()) (d.page s)).2).announced.length =
            d.announced.length + if decide (s.screen ∉ d.left) && true then 1 else 0 := by
          rw [newTaskCompleted_state]
          exact showDialog_announced .taskAdded (d.page s)
        rw [if_pos halert, Announced, hshown, ← Nat.add_assoc]
        refine Iff.trans ?_ (balance_iff h false true (decide (s.screen ∉ d.left)))
        simp [halert]
      · simp only [halert, ite_false, Announced, Desk.put, Desk.page]
        simpa [halert] using h
  | ok i =>
      obtain ⟨s, hget, -⟩ := henabled
      have hget : d.submissions[i]? = some s := hget
      rw [Desk.perform, Desk.withSubmission_of_get _ hget]
      exact iff_of_true trivial h
  | _ => exact iff_of_true trivial h

/-! ## Failed submissions -/

/-- No failed submission shows "Task Added", so that its OK cannot be pressed. -/
def Desk.FailsQuietly (d : Desk) : Prop :=
  ∀ s ∈ d.submissions, s.answer = some false → s.dialog ≠ some .taskAdded

theorem failsQuietly_step {d : Desk} {event : Desk.Event} (h : d.FailsQuietly)
    (htruthful : event.Truthful d) : (d.perform event).FailsQuietly := by
  have hsubmit : ∀ screen calls, (d.submit screen calls).FailsQuietly :=
    fun screen calls => Desk.forall_submit h fun c _ hfailed => absurd hfailed (by simp)
  cases event with
  | type title description => exact h
  | leave screen => exact h
  | sendNewTask screen uid city category => exact hsubmit _ _
  | addOffer screen uid furniture price => exact hsubmit _ _
  | report screen uid furniture reason => exact hsubmit _ _
  | answer i succeeded =>
      cases hget : d.submissions[i]? with
      | none => simpa [Desk.perform, Desk.withSubmission, hget] using h
      | some s =>
          rw [Desk.perform, Desk.withSubmission_of_get _ hget]
          refine Desk.forall_put (d := d) h i fun hfailed => ?_
          obtain rfl : succeeded = false := Option.some.inj hfailed
          exact failed_dialog s.write _ rfl
  | dismiss i =>
      cases hget : d.submissions[i]? with
      | none => simpa [Desk.perform, Desk.withSubmission, hget] using h
      | some s =>
          rw [Desk.perform, Desk.withSubmission_of_get _ hget, Desk.dismiss]
          split
          · rename_i halert
            have hleft : s.screen ∈ d.left := htruthful s hget halert
            refine Desk.forall_put h i fun _ => ?_
            simp [newTaskCompleted_state, showDialog_state, Desk.page, hleft]
          · exact Desk.forall_put h i fun _ => by simp [Desk.page]
  | ok i =>
      cases hget : d.submissions[i]? with
      | none => simpa [Desk.perform, Desk.withSubmission, hget] using h
      | some s =>
          rw [Desk.perform, Desk.withSubmission_of_get _ hget]
          exact Desk.forall_put (d := d) h i fun _ => by simp [Desk.page]

theorem leavesTexts_of_failsQuietly {d : Desk} {event : Desk.Event} (h : d.FailsQuietly)
    (henabled : event.Enabled d) : event.LeavesTexts d := by
  intro i hi s hs hfailed
  cases event with
  | answer j succeeded =>
      obtain ⟨x, hget, -⟩ := henabled
      rw [Desk.perform, Desk.withSubmission_of_get _ hget]
      exact ⟨rfl, rfl⟩
  | dismiss j =>
      obtain ⟨x, hget, -⟩ := henabled
      rw [Desk.perform, Desk.withSubmission_of_get _ hget, Desk.dismiss]
      split <;> exact ⟨rfl, rfl⟩
  | ok j =>
      obtain rfl : j = i := Option.some.inj hi
      obtain ⟨x, hget, hdialog⟩ := henabled
      rw [Desk.perform, Desk.withSubmission_of_get _ hget] at hs
      obtain ⟨hlt, -⟩ := List.getElem?_eq_some_iff.mp hget
      have hsame : s.answer = x.answer := by
        have hs : some _ = some s := (List.getElem?_set_self hlt).symm.trans hs
        rw [← Option.some.inj hs]
      exact absurd hdialog (h x (List.mem_of_getElem? hget) (hsame ▸ hfailed))
  | _ => cases hi

/-! ## Whole runs -/

/-- All along a run as many dialogs of success are shown as documents stored, and failed
submissions leave the texts in place, exactly when every step is truthful. -/
theorem announced_iff {s₀ : Store} {trace : List (Desk × Desk.Event)} {d : Desk}
    (run : Run (desk s₀) (desk s₀).init trace d) :
    ((∀ u ∈ visited trace d, Announced s₀ u) ∧ Meets (fun u event => event.LeavesTexts u) trace) ↔
      Meets (fun u event => event.Truthful u) trace := by
  have hcounts : (∀ u ∈ visited trace d, Announced s₀ u) ↔
      Meets (fun u event => event.Truthful u) trace := by
    refine run.forall_visited_iff ⟨[], .nil⟩ rfl fun u event hu h henabled => ?_
    have hadds : u.Adds := hu.invariant (I := Desk.Adds) (by simp [Desk.Adds, desk])
      fun v event _ hv _ => v.adds_perform hv event
    exact announced_step hadds henabled h
  refine ⟨fun h => hcounts.mp h.1, fun h => ⟨hcounts.mpr h, ?_⟩⟩
  rintro ⟨u, event⟩ hmem
  obtain ⟨front, back, rfl, hfront, henabled, -⟩ := run.split hmem
  have hquiet : u.FailsQuietly := hfront.invariant (I := Desk.FailsQuietly)
    ((meets_append ..).mp h).1 (by simp [Desk.FailsQuietly, desk])
    fun v event hv _ htruthful => failsQuietly_step hv htruthful
  exact leavesTexts_of_failsQuietly hquiet henabled

namespace Scenario

def described : Desk.Event :=
  .type title title

/-- A task that is added, an offer that is sent, and a report that fails when its screen is
gone. -/
def submitted : List Desk.Event :=
  [described, .sendNewTask 0 1 .riyadh .maintenance, .answer 0 true, .ok 0,
    .addOffer 1 2 (.ofDoc task) sixty, .answer 1 true, .answer 2 false, .dismiss 1,
    .report 1 2 (.ofDoc task) .spam, .leave 1, .answer 3 false]

/-- A task whose `add` fails: the alert is closed, and OK is pressed on "Task Added". -/
def failedTask : List Desk.Event :=
  [described, .sendNewTask 0 1 .riyadh .maintenance, .answer 0 false, .dismiss 0, .ok 0]

end Scenario

/-- Two documents and two dialogs. -/
theorem announced_iff_submitted :
    stored ((desk .empty).final (desk .empty).init Scenario.submitted).store = 2 ∧
      ∀ u ∈ visited ((desk .empty).steps (desk .empty).init Scenario.submitted)
        ((desk .empty).final (desk .empty).init Scenario.submitted), Announced .empty u :=
  ⟨by decide +kernel,
    ((announced_iff ((desk .empty).run_steps _ Scenario.submitted (by decide +kernel))).mpr
      (by decide +kernel)).1⟩

/-- "Task Added" is shown for a task that is not stored, and its OK clears the texts. -/
theorem failed_task_announced :
    (¬ ∀ s₀ trace d, Run (desk s₀) (desk s₀).init trace d → Announced s₀ d) ∧
      ¬ ∀ s₀ trace d, Run (desk s₀) (desk s₀).init trace d →
        Meets (fun u event => event.LeavesTexts u) trace := by
  have hrun : Run (desk .empty) (desk .empty).init _
      ((desk .empty).final (desk .empty).init Scenario.failedTask) :=
    (desk .empty).run_steps _ Scenario.failedTask (by decide +kernel)
  constructor
  · intro h
    exact absurd (h _ _ _ hrun) (by decide +kernel)
  · intro h
    exact absurd (h _ _ _ hrun) (by decide +kernel)

end Oun
