import Mathlib.Data.List.Basic

/-! # Chains of callbacks

What runs when the event of a future arrives: it ends in a value or an error and leaves a
state. Callbacks are chained to it as to a future, and every one sees the state that the
callbacks before it have left. -/

namespace Future

/-- A chain of callbacks over the state `σ` with errors `ε` and values `α`. -/
def Chain (σ ε α : Type*) := σ → Except ε α × σ

variable {σ ε α β : Type*}

namespace Chain

/-- The result alone; nothing else happens. -/
def completed (result : Except ε α) : Chain σ ε α := fun s => (result, s)

/-- `then`: the callback runs on the value; an error passes it by. -/
def andThen (c : Chain σ ε α) (callback : α → Chain σ ε β) : Chain σ ε β := fun s =>
  match c s with
  | (.ok value, t) => callback value t
  | (.error e, t) => (.error e, t)

/-- `onError`, `catchError` or a `catch` clause: the handler's result takes the place of
the error. -/
def onError (c : Chain σ ε α) (handler : ε → Chain σ ε α) : Chain σ ε α := fun s =>
  match c s with
  | (.ok value, t) => (.ok value, t)
  | (.error e, t) => handler e t

/-- `whenComplete`: the action runs on values and on errors alike and keeps the result
unless it fails itself. -/
def whenComplete (c : Chain σ ε α) (action : Chain σ ε Unit) : Chain σ ε α := fun s =>
  match action (c s).2 with
  | (.ok _, t) => ((c s).1, t)
  | (.error e, t) => (.error e, t)

/-! ## What is known of the result -/

@[simp] theorem completed_apply (result : Except ε α) (s : σ) :
    completed result s = (result, s) := rfl

theorem andThen_of_ok {c : Chain σ ε α} {callback : α → Chain σ ε β} {s t : σ} {value : α}
    (h : c s = (.ok value, t)) : c.andThen callback s = callback value t := by
  simp only [andThen, h]

theorem onError_of_ok {c : Chain σ ε α} {handler : ε → Chain σ ε α} {s t : σ} {value : α}
    (h : c s = (.ok value, t)) : c.onError handler s = (.ok value, t) := by
  simp only [onError, h]

theorem onError_of_error {c : Chain σ ε α} {handler : ε → Chain σ ε α} {s t : σ} {e : ε}
    (h : c s = (.error e, t)) : c.onError handler s = handler e t := by
  simp only [onError, h]

/-- Whatever went before, the state is the one in which the last action ends. -/
theorem whenComplete_state (c : Chain σ ε α) (action : Chain σ ε Unit) (s : σ) :
    (c.whenComplete action s).2 = (action (c s).2).2 := by
  unfold whenComplete
  split <;> simp_all

/-! ## What a chain keeps -/

/-- Running the chain never breaks `I`. -/
def Keeps (I : σ → Prop) (c : Chain σ ε α) : Prop := ∀ s, I s → I (c s).2

theorem keeps_completed (I : σ → Prop) (result : Except ε α) :
    Keeps I (completed result : Chain σ ε α) := fun _ h => h

theorem Keeps.andThen {I : σ → Prop} {c : Chain σ ε α} {callback : α → Chain σ ε β}
    (hc : c.Keeps I) (hcallback : ∀ value, (callback value).Keeps I) :
    (c.andThen callback).Keeps I := by
  intro s hs
  have ht := hc s hs
  unfold Chain.andThen
  split
  · rename_i heq
    exact hcallback _ _ (by simpa [heq] using ht)
  · rename_i heq
    simpa [heq] using ht

theorem Keeps.onError {I : σ → Prop} {c : Chain σ ε α} {handler : ε → Chain σ ε α}
    (hc : c.Keeps I) (hhandler : ∀ e, (handler e).Keeps I) : (c.onError handler).Keeps I := by
  intro s hs
  have ht := hc s hs
  unfold Chain.onError
  split
  · rename_i heq
    simpa [heq] using ht
  · rename_i heq
    exact hhandler _ _ (by simpa [heq] using ht)

end Chain

end Future
