import Oun.Library.Transition

/-! # Simulations

A concrete system against an abstract one. Every concrete step is either matched by the
abstract action that labels it or, without a label, leaves the abstract state alone. -/

namespace Transition

variable {σ α τ β : Type*}

/-- The abstract actions that label the steps of a run. -/
def labels (label : σ → α → Option β) (trace : List (σ × α)) : List β :=
  trace.filterMap fun step => label step.1 step.2

@[simp] theorem labels_nil (label : σ → α → Option β) : labels label [] = [] := rfl

@[simp] theorem labels_append (label : σ → α → Option β) (front back : List (σ × α)) :
    labels label (front ++ back) = labels label front ++ labels label back :=
  List.filterMap_append

/-- `Represents` relates the states, and every step from a reachable state that meets `C` is
matched. -/
structure Simulates (S : System σ α) (A : System τ β) (C : σ → α → Prop)
    (label : σ → α → Option β) (Represents : σ → τ → Prop) : Prop where
  init : Represents S.init A.init
  stutter : ∀ {s a m}, Reachable S s → Represents s m → S.Enabled s a → C s a →
    label s a = none → Represents (S.perform s a) m
  step : ∀ {s a m b}, Reachable S s → Represents s m → S.Enabled s a → C s a →
    label s a = some b → A.Enabled m b ∧ Represents (S.perform s a) (A.perform m b)

variable {S : System σ α} {A : System τ β} {C : σ → α → Prop} {label : σ → α → Option β}
  {Represents : σ → τ → Prop}

/-- A stronger condition on the steps is met by fewer of them. -/
theorem Simulates.mono {C' : σ → α → Prop} (simulates : Simulates S A C label Represents)
    (h : ∀ s a, C' s a → C s a) : Simulates S A C' label Represents where
  init := simulates.init
  stutter hs hrep henabled hC := simulates.stutter hs hrep henabled (h _ _ hC)
  step hs hrep henabled hC := simulates.step hs hrep henabled (h _ _ hC)

/-- A run of which all steps meet the condition is a run of the abstract system with the
labels as its actions. -/
theorem Simulates.run (simulates : Simulates S A C label Represents) {trace : List (σ × α)} {s : σ}
    (run : Run S S.init trace s) (hC : Meets C trace) :
    ∃ steps m, Run A A.init steps m ∧ steps.map Prod.snd = labels label trace ∧
      Represents s m := by
  induction run with
  | nil => exact ⟨[], A.init, .nil, rfl, simulates.init⟩
  | @snoc trace t a run enabled ih =>
      rw [meets_append, meets_singleton] at hC
      obtain ⟨steps, m, habstract, hlabels, hrep⟩ := ih hC.1
      have hreach : Reachable S t := ⟨trace, run⟩
      rw [labels_append]
      cases hlabel : label t a with
      | none =>
          exact ⟨steps, m, habstract, by simp [labels, hlabels, hlabel],
            simulates.stutter hreach hrep enabled hC.2 hlabel⟩
      | some b =>
          obtain ⟨hb, hnext⟩ := simulates.step hreach hrep enabled hC.2 hlabel
          exact ⟨steps ++ [(m, b)], A.perform m b, habstract.snoc b hb,
            by simp [labels, hlabels, hlabel], hnext⟩

/-- A run without labels stays with the abstract state. -/
theorem Simulates.silent (simulates : Simulates S A C label Represents) {trace : List (σ × α)}
    {s t : σ} {m : τ} (run : Run S s trace t) (hs : Reachable S s) (hrep : Represents s m)
    (hC : Meets C trace) (hlabels : labels label trace = []) : Represents t m := by
  induction run with
  | nil => exact hrep
  | @snoc trace u a run enabled ih =>
      rw [meets_append, meets_singleton] at hC
      rw [labels_append, List.append_eq_nil_iff] at hlabels
      refine simulates.stutter (run.reachable hs) (ih hC.1 hlabels.1) enabled hC.2 ?_
      simpa [labels] using hlabels.2

/-! ## Abstract runs that are played -/

/-- From every idle state that a run meeting `C` leads to, each enabled abstract action is the one
label of a run that comes to rest. -/
structure Realizes (S : System σ α) (A : System τ β) (C : σ → α → Prop)
    (label : σ → α → Option β) (Represents : σ → τ → Prop) (Idle : σ → Prop) : Prop where
  init : Idle S.init
  play : ∀ {trace s m b}, Run S S.init trace s → Meets C trace → Idle s → Represents s m →
    A.Enabled m b → ∃ next s', Run S s next s' ∧ Meets C next ∧ labels label next = [b] ∧ Idle s'

/-- What is simulated and realized has a run for every abstract run. -/
theorem Realizes.run {Idle : σ → Prop} (realizes : Realizes S A C label Represents Idle)
    (simulates : Simulates S A C label Represents) {steps : List (τ × β)} {m : τ}
    (run : Run A A.init steps m) :
    ∃ trace s, Run S S.init trace s ∧ Meets C trace ∧
      labels label trace = steps.map Prod.snd ∧ Idle s ∧ Represents s m := by
  induction run with
  | nil => exact ⟨[], S.init, .nil, meets_nil C, rfl, realizes.init, simulates.init⟩
  | @snoc steps n b run enabled ih =>
      obtain ⟨trace, s, hrun, hC, hlabels, hidle, hrep⟩ := ih
      obtain ⟨next, s', hnext, hCnext, hlabel, hidle'⟩ :=
        realizes.play hrun hC hidle hrep enabled
      have hC' : Meets C (trace ++ next) := (meets_append C trace next).mpr ⟨hC, hCnext⟩
      have hlabels' : labels label (trace ++ next) = (steps ++ [(n, b)]).map Prod.snd := by
        rw [labels_append, hlabels, hlabel, List.map_append]
        rfl
      obtain ⟨steps', m', habstract, hsame, hrep'⟩ := simulates.run (hrun.trans hnext) hC'
      have hm : m' = A.perform n b := by
        rw [habstract.eq_final, hsame, hlabels']
        exact (run.snoc b enabled).eq_final.symm
      exact ⟨trace ++ next, s', hrun.trans hnext, hC', hlabels', hidle', hm ▸ hrep'⟩

end Transition
