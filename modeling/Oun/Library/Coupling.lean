import Oun.Library.Simulation

/-! # Coupled systems

A system that drives another one: each of its steps may bring along an action of the driven
system, which besides takes steps of its own. -/

namespace Transition

variable {σ α τ β : Type*}

/-- `moves s a` is the action that the step `a` from `s` brings along. -/
def System.drives (S : System σ α) (T : System τ β) (moves : σ → α → Option β)
    (own : β → Prop) : System (σ × τ) (α ⊕ β) where
  init := (S.init, T.init)
  Enabled u
    | .inl a => S.Enabled u.1 a
    | .inr b => own b ∧ T.Enabled u.2 b
  perform u
    | .inl a => (S.perform u.1 a, (moves u.1 a).elim u.2 (T.perform u.2))
    | .inr b => (u.1, T.perform u.2 b)

/-- What the driving system does in a step. -/
def driving (_ : σ × τ) : α ⊕ β → Option α := Sum.getLeft?

/-- What the driven system does in a step. -/
def driven (moves : σ → α → Option β) (u : σ × τ) : α ⊕ β → Option β
  | .inl a => moves u.1 a
  | .inr b => some b

/-- What the step brings along is possible. -/
def Follows (T : System τ β) (moves : σ → α → Option β) (u : σ × τ) : α ⊕ β → Prop
  | .inl a => ∀ b ∈ moves u.1 a, T.Enabled u.2 b
  | .inr _ => True

variable {S : System σ α} {T : System τ β} {moves : σ → α → Option β} {own : β → Prop}

theorem drives_driving :
    Simulates (S.drives T moves own) S (fun _ _ => True) driving fun u s => u.1 = s where
  init := rfl
  stutter {u c s} _ hs _ _ hlabel := by
    cases c with
    | inl a => cases hlabel
    | inr b => exact hs
  step {u c s a} _ hs henabled _ hlabel := by
    subst hs
    cases c with
    | inl b =>
        obtain rfl := Option.some.inj hlabel
        exact ⟨henabled, rfl⟩
    | inr b => cases hlabel

theorem Reachable.driving {u : σ × τ} (hu : Reachable (S.drives T moves own) u) :
    Reachable S u.1 := by
  obtain ⟨trace, run⟩ := hu
  obtain ⟨steps, w, hw, -, rfl⟩ := drives_driving.run run fun _ _ => trivial
  exact ⟨steps, hw⟩

/-- What the driving system does without bringing anything along, it does in the whole. -/
theorem Run.silent {s t : σ} {trace : List (σ × α)} (run : Run S s trace t)
    (hsilent : labels moves trace = []) (b : τ) :
    Run (S.drives T moves own) (s, b) (trace.map fun step => ((step.1, b), .inl step.2))
      (t, b) := by
  induction run with
  | nil => exact .nil
  | @snoc trace v a run enabled ih =>
      rw [labels_append, List.append_eq_nil_iff] at hsilent
      have hmoves : moves v a = none := by simpa [labels] using hsilent.2
      have hnext : (S.perform v a, b) = (S.drives T moves own).perform (v, b) (.inl a) := by
        simp [System.drives, hmoves]
      have henabled : (S.drives T moves own).Enabled (v, b) (.inl a) := enabled
      rw [List.map_append, hnext]
      exact (ih hsilent.1).snoc (.inl a) henabled

theorem labels_silent (trace : List (σ × α)) (b : τ) :
    labels (driven moves) (trace.map fun step => ((step.1, b), .inl step.2)) =
      labels moves trace :=
  List.filterMap_map

/-- The driven system is where its actions lead, possible or not. -/
theorem drives_final {trace : List ((σ × τ) × (α ⊕ β))} {u : σ × τ}
    (run : Run (S.drives T moves own) (S.drives T moves own).init trace u) :
    u.2 = T.final T.init (labels (driven moves) trace) := by
  induction run with
  | nil => rfl
  | @snoc trace v c run enabled ih =>
      rw [labels_append, System.final, List.foldl_append]
      cases c with
      | inl a =>
          cases hmoves : moves v.1 a <;>
            simp only [System.drives, labels, driven, hmoves, List.filterMap_cons,
              List.filterMap_nil, List.foldl_cons, List.foldl_nil, Option.elim] <;>
            rw [ih] <;> rfl
      | inr b => exact congrArg (T.perform · b) ih

theorem steps_driven_snoc {trace : List ((σ × τ) × (α ⊕ β))} {u : σ × τ}
    (run : Run (S.drives T moves own) (S.drives T moves own).init trace u) (c : α ⊕ β) :
    T.steps T.init (labels (driven moves) (trace ++ [(u, c)])) =
      T.steps T.init (labels (driven moves) trace) ++
        ((driven moves u c).map fun b => (u.2, b)).toList := by
  rw [labels_append, System.steps_append, ← drives_final run]
  cases hdriven : driven moves u c <;> simp [labels, hdriven, System.steps]

/-- A condition on what the driven system does. -/
theorem meets_driven {trace : List ((σ × τ) × (α ⊕ β))} {u : σ × τ}
    (run : Run (S.drives T moves own) (S.drives T moves own).init trace u) (C : τ → β → Prop) :
    Meets C (T.steps T.init (labels (driven moves) trace)) ↔
      Meets (fun v c => ∀ b ∈ driven moves v c, C v.2 b) trace := by
  induction run with
  | nil => exact iff_of_true (meets_nil _) (meets_nil _)
  | @snoc trace v c run enabled ih =>
      rw [steps_driven_snoc run, meets_append, meets_append, ih, meets_singleton]
      cases driven moves v c <;> simp

/-- What labels what the driven system does. -/
theorem labels_driven {γ : Type*} {trace : List ((σ × τ) × (α ⊕ β))} {u : σ × τ}
    (run : Run (S.drives T moves own) (S.drives T moves own).init trace u)
    (label : τ → β → Option γ) :
    labels label (T.steps T.init (labels (driven moves) trace)) =
      labels (fun v c => (driven moves v c).bind (label v.2)) trace := by
  induction run with
  | nil => rfl
  | @snoc trace v c run enabled ih =>
      rw [steps_driven_snoc run, labels_append, labels_append, ih]
      cases hdriven : driven moves v c <;> simp [labels, List.filterMap_cons, hdriven]

/-- What the driven system does is a run of it exactly if it can always follow. -/
theorem drives_driven_iff {trace : List ((σ × τ) × (α ⊕ β))} {u : σ × τ}
    (run : Run (S.drives T moves own) (S.drives T moves own).init trace u) :
    (∃ steps, Run T T.init steps u.2 ∧ steps.map Prod.snd = labels (driven moves) trace) ↔
      Meets (Follows T moves) trace := by
  rw [drives_final run, System.exists_run_iff, meets_driven run]
  refine run.meets_congr fun v c _ enabled => ?_
  cases c with
  | inl a => exact Iff.rfl
  | inr b => simpa [driven, Follows] using enabled.2

end Transition
