import Oun.Verification.Market.Played
import Oun.Verification.Whole.Exact

/-! # The whole app plays the whole market

From nothing but the sign-up screen on: whoever posts, bids, reports or is rated has come in by
the entrance. -/

namespace Oun

open Firestore Transition

/-- Every handler still finds what its screen has asked. -/
def Orderly (u : Entrance × World) (c : Entrance.Event ⊕ Action) : Prop :=
  ∀ a ∈ driven Entrance.Event.moves u c, Permitted u.2 a

instance (u : Entrance × World) (c : Entrance.Event ⊕ Action) : Decidable (Orderly u c) := by
  unfold Orderly; infer_instance

/-- What a step of the whole app is on the market. -/
def marketDeed (u : Entrance × World) (c : Entrance.Event ⊕ Action) : Option TaskDeed :=
  (driven Entrance.Event.moves u c).bind (deed u.2)

/-- Whoever is at work has been signed in. -/
theorem exists_joining {trace : List (World × Action)} {w : World}
    (run : Run app app.init trace w) (h : Meets Registers trace) :
    ∃ steps joined, Run (joining fun _ => User.Typed) (joining fun _ => User.Typed).init steps
      (w, joined) ∧ steps.map Prod.snd = trace.map Prod.snd ∧ ∀ uid, w.Acts uid → uid ∈ joined := by
  induction run with
  | nil => exact ⟨[], [], .nil, rfl, by simp [World.Acts, app, World.init]⟩
  | @snoc trace w a run enabled ih =>
      rw [meets_append, meets_singleton] at h
      obtain ⟨steps, joined, hrun, hsame, hacts⟩ := ih h.1
      have hjoins : a.Joins (fun _ => User.Typed) joined := by
        cases a with
        | signUp uid user => exact ⟨hacts uid h.2.1, h.2.2⟩
        | _ => trivial
      have hstep : (joining fun _ => User.Typed).Enabled (w, joined) a := ⟨enabled, hjoins⟩
      refine ⟨_, _, hrun.snoc a hstep, by simp [hsame], fun uid huid => ?_⟩
      rcases acts_perform enabled huid with huid | ⟨session, rfl⟩
      · have hmem := hacts uid huid
        cases a with
        | signIn => exact List.mem_cons_of_mem _ hmem
        | _ => exact hmem
      · exact List.mem_cons_self

end Oun
