import Mathlib.Data.List.Basic

/-! # Guarded transition systems

States, actions with a guard and one result, and the finite runs they make up. A run
keeps every action together with the state it was taken in, so that a condition on
single steps can be imposed on a whole run. -/

namespace Transition

/-- An action may be taken where it is enabled and then has one result. -/
structure System (σ α : Type*) where
  init : σ
  Enabled : σ → α → Prop
  perform : σ → α → σ

variable {σ α : Type*} {S : System σ α}

/-- `Run S s trace t`: the actions of `trace`, each paired with the state it was taken
in, lead from `s` to `t`. -/
inductive Run (S : System σ α) (s : σ) : List (σ × α) → σ → Prop where
  | nil : Run S s [] s
  | snoc {trace t} (a : α) : Run S s trace t → S.Enabled t a →
      Run S s (trace ++ [(t, a)]) (S.perform t a)

/-- Every step of the run meets the condition. -/
def Meets (C : σ → α → Prop) (trace : List (σ × α)) : Prop :=
  ∀ step ∈ trace, C step.1 step.2

instance (C : σ → α → Prop) [∀ s a, Decidable (C s a)] (trace : List (σ × α)) :
    Decidable (Meets C trace) := by
  unfold Meets; infer_instance

def Reachable (S : System σ α) (s : σ) : Prop :=
  ∃ trace, Run S S.init trace s

@[simp] theorem meets_nil (C : σ → α → Prop) : Meets C ([] : List (σ × α)) := by
  simp [Meets]

@[simp] theorem meets_append (C : σ → α → Prop) (front back : List (σ × α)) :
    Meets C (front ++ back) ↔ Meets C front ∧ Meets C back := by
  simp [Meets, or_imp, forall_and]

@[simp] theorem meets_singleton (C : σ → α → Prop) (s : σ) (a : α) :
    Meets C [(s, a)] ↔ C s a := by
  simp [Meets]

/-! ## Invariants -/

/-- What holds at the start and is kept by every enabled step that meets the condition
holds at the end of every run whose steps all meet it. -/
theorem Run.invariant {s t : σ} {trace : List (σ × α)} {C : σ → α → Prop} {I : σ → Prop}
    (run : Run S s trace t) (hC : Meets C trace) (hs : I s)
    (hstep : ∀ u a, I u → S.Enabled u a → C u a → I (S.perform u a)) : I t := by
  induction run with
  | nil => exact hs
  | snoc a _ enabled ih =>
      rw [meets_append, meets_singleton] at hC
      exact hstep _ a (ih hC.1) enabled hC.2

theorem Run.reachable {s t : σ} {trace : List (σ × α)} (run : Run S s trace t)
    (hs : Reachable S s) : Reachable S t := by
  induction run with
  | nil => exact hs
  | snoc a _ enabled ih =>
      obtain ⟨front, hfront⟩ := ih
      exact ⟨front ++ [(_, a)], hfront.snoc a enabled⟩

/-- An invariant of the steps from reachable states holds in every reachable state. -/
theorem Reachable.invariant {t : σ} {I : σ → Prop} (reachable : Reachable S t)
    (hinit : I S.init)
    (hstep : ∀ u a, Reachable S u → I u → S.Enabled u a → I (S.perform u a)) : I t := by
  obtain ⟨trace, run⟩ := reachable
  exact (run.invariant (C := fun _ _ => True) (I := fun u => Reachable S u ∧ I u)
    (fun _ _ => trivial) ⟨⟨[], .nil⟩, hinit⟩
    fun u a hu ha _ => ⟨(Run.snoc a .nil ha).reachable hu.1, hstep u a hu.1 hu.2 ha⟩).2

/-- The same for the runs from the initial state whose steps all meet a condition. -/
theorem Run.invariant_init {t : σ} {trace : List (σ × α)} {C : σ → α → Prop} {I : σ → Prop}
    (run : Run S S.init trace t) (hC : Meets C trace) (hinit : I S.init)
    (hstep : ∀ u a, Reachable S u → I u → S.Enabled u a → C u a → I (S.perform u a)) : I t :=
  (run.invariant (I := fun u => Reachable S u ∧ I u) hC ⟨⟨[], .nil⟩, hinit⟩
    fun u a hu ha hCa => ⟨(Run.snoc a .nil ha).reachable hu.1, hstep u a hu.1 hu.2 ha hCa⟩).2

theorem Run.trans {s t u : σ} {front back : List (σ × α)} (first : Run S s front t)
    (second : Run S t back u) : Run S s (front ++ back) u := by
  induction second with
  | nil => simpa using first
  | snoc a _ enabled ih =>
      rw [← List.append_assoc]
      exact ih.snoc a enabled

theorem Run.single {s : σ} {a : α} (enabled : S.Enabled s a) : Run S s [(s, a)] (S.perform s a) :=
  .snoc a .nil enabled

/-- A run splits at each of its steps. -/
theorem Run.split {s t u : σ} {a : α} {trace : List (σ × α)} (run : Run S s trace t)
    (hmem : (u, a) ∈ trace) :
    ∃ front back, trace = front ++ (u, a) :: back ∧ Run S s front u ∧ S.Enabled u a ∧
      Run S (S.perform u a) back t := by
  induction run with
  | nil => simp at hmem
  | @snoc trace v b run enabled ih =>
      rcases List.mem_append.mp hmem with hmem | hmem
      · obtain ⟨front, back, rfl, hfront, ha, hback⟩ := ih hmem
        exact ⟨front, back ++ [(v, b)], by simp, hfront, ha, hback.snoc b enabled⟩
      · obtain ⟨rfl, rfl⟩ := Prod.mk.inj (List.mem_singleton.mp hmem)
        exact ⟨trace, [], rfl, run, enabled, .nil⟩

/-- Conditions that agree on what is enabled in reachable states are met by the same runs. -/
theorem Run.meets_congr {t : σ} {trace : List (σ × α)} {C C' : σ → α → Prop}
    (run : Run S S.init trace t)
    (h : ∀ u a, Reachable S u → S.Enabled u a → (C u a ↔ C' u a)) :
    Meets C trace ↔ Meets C' trace := by
  refine forall_congr' fun step => forall_congr' fun hstep => ?_
  obtain ⟨front, -, -, hfront, henabled, -⟩ := run.split hstep
  exact h _ _ ⟨front, hfront⟩ henabled

/-- The states that a run passes through, the last one included. -/
def visited (trace : List (σ × α)) (t : σ) : List σ :=
  trace.map Prod.fst ++ [t]

theorem Run.mem_visited_self {s t : σ} {trace : List (σ × α)} (_ : Run S s trace t) :
    t ∈ visited trace t := by
  simp [visited]

/-- A run splits at each state that it passes through. -/
theorem Run.split_visited {s t u : σ} {trace : List (σ × α)} (run : Run S s trace t)
    (hu : u ∈ visited trace t) :
    ∃ front back, trace = front ++ back ∧ Run S s front u ∧ Run S u back t := by
  rcases List.mem_append.mp hu with hu | hu
  · obtain ⟨⟨_, a⟩, hmem, rfl⟩ := List.mem_map.mp hu
    obtain ⟨front, back, rfl, hfront, ha, hback⟩ := run.split hmem
    exact ⟨front, (_, a) :: back, rfl, hfront, (Run.single ha).trans hback⟩
  · rw [List.mem_singleton.mp hu]
    exact ⟨trace, [], by simp, run, .nil⟩

/-- If, wherever `J` holds, a step that meets `K` keeps `I` exactly when it meets the
condition, then `I` holds all along a run that keeps `J` exactly when all its steps meet it. -/
theorem Run.forall_visited_iff_of_meets {s t : σ} {trace : List (σ × α)} {C K : σ → α → Prop}
    {I J : σ → Prop} (run : Run S s trace t) (hK : Meets K trace) (hJ : J s) (hs : I s)
    (hkeep : ∀ u a, J u → S.Enabled u a → K u a → J (S.perform u a))
    (hstep : ∀ u a, J u → I u → S.Enabled u a → K u a → (C u a ↔ I (S.perform u a))) :
    (∀ u ∈ visited trace t, I u) ↔ Meets C trace := by
  induction run with
  | nil => simp [visited, hs]
  | @snoc trace v a run enabled ih =>
      have hvisited : ∀ u, u ∈ visited (trace ++ [(v, a)]) (S.perform v a) ↔
          u ∈ visited trace v ∨ u = S.perform v a := by
        simp [visited, or_assoc]
      rw [meets_append, meets_singleton] at hK
      simp only [hvisited, or_imp, forall_and, forall_eq, meets_append, meets_singleton, ih hK.1]
      refine and_congr_right fun hmeets => ?_
      have hv : I v := (ih hK.1).mpr hmeets v run.mem_visited_self
      exact (hstep v a (run.invariant hK.1 hJ hkeep) hv enabled hK.2).symm

/-- If a step keeps `I` exactly when it meets the condition, then `I` holds all along a
run exactly when all its steps meet the condition. -/
theorem Run.forall_visited_iff {s t : σ} {trace : List (σ × α)} {C : σ → α → Prop}
    {I : σ → Prop} (run : Run S s trace t) (reachable : Reachable S s) (hs : I s)
    (hstep : ∀ u a, Reachable S u → I u → S.Enabled u a → (C u a ↔ I (S.perform u a))) :
    (∀ u ∈ visited trace t, I u) ↔ Meets C trace :=
  run.forall_visited_iff_of_meets (K := fun _ _ => True) (fun _ _ => trivial) reachable hs
    (fun _ a hu ha _ => (Run.snoc a .nil ha).reachable hu) fun u a hu hI ha _ =>
      hstep u a hu hI ha

/-! ## Reaching a goal -/

/-- If in every state short of the goal some step that meets `K` keeps `I` and makes the measure
smaller, then a run of such steps reaches the goal. -/
theorem exists_run_to {K : σ → α → Prop} {I Goal : σ → Prop} (measure : σ → ℕ)
    (hstep : ∀ u, I u → ¬ Goal u → ∃ a, S.Enabled u a ∧ K u a ∧ I (S.perform u a) ∧
      measure (S.perform u a) < measure u) {s : σ} (hs : I s) :
    ∃ trace t, Run S s trace t ∧ Meets K trace ∧ Goal t := by
  induction hn : measure s using Nat.strongRecOn generalizing s with
  | _ n ih =>
      by_cases hgoal : Goal s
      · exact ⟨[], s, .nil, meets_nil K, hgoal⟩
      · obtain ⟨a, ha, hK, hkeep, hlt⟩ := hstep s hs hgoal
        obtain ⟨trace, t, run, hmeets, hgoal⟩ := ih _ (hn ▸ hlt) hkeep rfl
        refine ⟨(s, a) :: trace, t, (Run.single ha).trans run, ?_, hgoal⟩
        exact (meets_append K [(s, a)] trace).mpr ⟨(meets_singleton K s a).mpr hK, hmeets⟩

/-! ## History variables -/

/-- The system with a history variable: a value that every step updates and none reads. -/
def System.recording {η : Type*} (S : System σ α) (start : η) (record : η → σ → α → η) :
    System (σ × η) α where
  init := (S.init, start)
  Enabled u a := S.Enabled u.1 a
  perform u a := (S.perform u.1 a, record u.2 u.1 a)

/-- A history variable adds no runs. -/
theorem Run.forget {η : Type*} {start : η} {record : η → σ → α → η} {u v : σ × η}
    {trace : List ((σ × η) × α)} (run : Run (S.recording start record) u trace v) :
    Run S u.1 (trace.map fun step => (step.1.1, step.2)) v.1 := by
  induction run with
  | nil => exact .nil
  | snoc a _ enabled ih =>
      rw [List.map_append]
      exact ih.snoc a enabled

theorem Reachable.forget {η : Type*} {start : η} {record : η → σ → α → η} {u : σ × η}
    (reachable : Reachable (S.recording start record) u) : Reachable S u.1 := by
  obtain ⟨trace, run⟩ := reachable
  exact ⟨_, run.forget⟩

/-! ## Running a list of actions -/

/-- The steps that a list of actions takes, whether or not they are enabled. -/
def System.steps (S : System σ α) : σ → List α → List (σ × α)
  | _, [] => []
  | s, a :: actions => (s, a) :: S.steps (S.perform s a) actions

def System.final (S : System σ α) (s : σ) (actions : List α) : σ :=
  actions.foldl S.perform s

/-- A list of actions each enabled in its turn is a run. -/
theorem System.run_steps (S : System σ α) (s : σ) (actions : List α)
    (enabled : Meets S.Enabled (S.steps s actions)) :
    Run S s (S.steps s actions) (S.final s actions) := by
  induction actions generalizing s with
  | nil => exact .nil
  | cons a actions ih =>
      have hcons : S.steps s (a :: actions) = [(s, a)] ++ S.steps (S.perform s a) actions := rfl
      rw [hcons, meets_append, meets_singleton] at enabled
      rw [hcons]
      exact (Run.single enabled.1).trans (ih _ enabled.2)

/-- The end of a run is a function of its actions. -/
theorem Run.eq_final {s t : σ} {trace : List (σ × α)} (run : Run S s trace t) :
    t = S.final s (trace.map Prod.snd) := by
  induction run with
  | nil => rfl
  | snoc a _ _ ih =>
      rw [List.map_append, System.final, List.foldl_append]
      exact congrArg (S.perform · a) ih

theorem System.steps_append (S : System σ α) (s : σ) (actions actions' : List α) :
    S.steps s (actions ++ actions') =
      S.steps s actions ++ S.steps (S.final s actions) actions' := by
  induction actions generalizing s with
  | nil => rfl
  | cons a actions ih => simp [System.steps, System.final, ih]

/-- A run takes the steps of its actions, each enabled in its turn. -/
theorem Run.eq_steps {s t : σ} {trace : List (σ × α)} (run : Run S s trace t) :
    trace = S.steps s (trace.map Prod.snd) ∧ Meets S.Enabled trace := by
  induction run with
  | nil => exact ⟨rfl, meets_nil _⟩
  | @snoc trace t a run enabled ih =>
      obtain ⟨hsteps, henabled⟩ := ih
      refine ⟨?_, (meets_append _ _ _).mpr ⟨henabled, (meets_singleton _ _ _).mpr enabled⟩⟩
      rw [List.map_append, System.steps_append, ← hsteps, ← run.eq_final]
      rfl

/-- A list of actions is that of a run exactly if each is enabled in its turn. -/
theorem System.exists_run_iff (S : System σ α) (s : σ) (actions : List α) :
    (∃ trace, Run S s trace (S.final s actions) ∧ trace.map Prod.snd = actions) ↔
      Meets S.Enabled (S.steps s actions) := by
  constructor
  · rintro ⟨trace, run, rfl⟩
    obtain ⟨hsteps, henabled⟩ := run.eq_steps
    exact hsteps ▸ henabled
  · intro henabled
    have run := S.run_steps s actions henabled
    refine ⟨S.steps s actions, run, ?_⟩
    clear run henabled
    induction actions generalizing s with
    | nil => rfl
    | cons a actions ih => simp [System.steps, ih]

end Transition
