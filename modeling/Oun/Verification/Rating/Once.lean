import Oun.Verification.Rating.Mean
import Oun.Verification.Sessions.Once

/-! # At most one rating for a task

`israted()` is asked when the rating bar is drawn. The bar and its dialogs stay usable, and
Rate writes without asking again. -/

namespace Oun

open Firestore Regex Transition

/-- The stored ratings of a task. -/
def ratings (s : Store) (t : DocId) : ℕ :=
  (s.rate.whereEqualTo Rate.task t).length

/-- A rating of the task is stored, so that `israted()` answers yes, or issued and on its
way. -/
def Rated (w : World) (t : DocId) : Prop :=
  israted (w.store.rate.whereEqualTo Rate.task t) = true ∨
    ∃ p ∈ w.processes, ∃ c ∈ p.handler.calls, ∃ r ∈ c.write.rate?, r.task = t

/-- Rate is pressed only for a task that is not rated. -/
def RatesUnrated (w : World) (a : Action) : Prop :=
  ∀ c ∈ issues w a, ∀ r ∈ c.write.rate?, ¬ Rated w r.task

instance (w : World) (t : DocId) : Decidable (Rated w t) := by
  unfold Rated; infer_instance

instance (w : World) (a : Action) : Decidable (RatesUnrated w a) := by
  unfold RatesUnrated; infer_instance

theorem ratings_eq_count (s : Store) (t : DocId) :
    ratings s t = s.rate.count (hasKey Rate.task t) :=
  List.countP_eq_length_filter.symm

theorem israted_iff (documents : List (Doc Rate)) :
    israted documents = true ↔ 0 < documents.length := by
  cases documents <;> simp [israted]

theorem rated_iff_taken (w : World) (t : DocId) :
    Rated w t ↔ Taken Store.rate Write.rate? Rate.task w t := by
  have hcall : ∀ c : Call, (∃ r ∈ c.write.rate?, r.task = t) ↔
      c.adds Write.rate? (hasKey Rate.task t) = true := by
    intro c
    simp [Call.adds_iff, hasKey]
  rw [Rated, Taken, israted_iff, ← ratings_eq_count]
  simp only [hcall]
  rfl

/-- If Rate is only pressed for unrated tasks, no state of the run has two ratings of one
task; and once its writes have landed, a run without two such ratings has pressed Rate
so only. -/
theorem rated_once {trace : List (World × Action)} {w : World}
    (run : Run app World.init trace w) :
    (Meets RatesUnrated trace → ∀ u ∈ visited trace w, ∀ t, ratings u.store t ≤ 1) ∧
      (w.Quiet → (∀ t, ratings w.store t ≤ 1) → Meets RatesUnrated trace) := by
  simp only [ratings_eq_count]
  refine rate_grows.once (fun u a => ?_) (fun u a ha t => ?_) run
  · simp only [RatesUnrated, rated_iff_taken]
  · exact countP_issues_le_one ha (fun _ _ _ => rfl) (fun _ _ _ => rfl) fun _ _ _ _ => rfl

namespace Scenario

/-- The owner's second phone shows the rating bar as well, and both rate. -/
def ratedTwice : List Action :=
  ratable ++ visit 1 3 [added 0, added 1, notif 2 3 .rejected, notif 3 2 .accepted] ++
    [.israted 3 [], .pressRate 2 five, .pressRate 3 five, .process 4 (.rate 2 five),
      .process 5 (.rate 2 five), .write 4, .write 4, .write 5, .write 5]

end Scenario

/-- One phone rates once. -/
theorem rated_once_ratedWithoutData :
    Meets RatesUnrated (app.steps app.init Scenario.ratedWithoutData) ∧
      ∀ u ∈ visited (app.steps app.init Scenario.ratedWithoutData)
        (app.final app.init Scenario.ratedWithoutData), ∀ t, ratings u.store t ≤ 1 :=
  have hmeets : Meets RatesUnrated (app.steps app.init Scenario.ratedWithoutData) := by
    decide +kernel
  ⟨hmeets, (rated_once (app.run_steps _ Scenario.ratedWithoutData (by decide +kernel))).1 hmeets⟩

/-- A task with two ratings is reachable. -/
theorem two_ratings_reachable :
    ¬ ∀ w, Reachable app w → ∀ t, ratings w.store t ≤ 1 := by
  intro h
  have htwo : ratings (app.final app.init Scenario.ratedTwice).store 0 = 2 := by decide +kernel
  have hle := h _ ⟨_, app.run_steps _ Scenario.ratedTwice (by decide +kernel)⟩ 0
  omega

end Oun
