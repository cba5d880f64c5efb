import Oun.Library.Coupling
import Oun.Model.Entrance
import Oun.Model.Sessions

/-! # The whole app

The phones of the entrance are the sessions of the task screens. Nobody is signed up or in but
by the entrance, and while its attempts go on, so do the handlers of all other phones. -/

namespace Oun

open Firestore Transition

/-- What an event of the entrance does to `users` and to the sessions: a document is stored,
or a request has signed a user in. -/
def Entrance.Event.moves (w : Entrance) : Entrance.Event → Option Action
  | .wrote d true => some (.signUp d.id d.data)
  | .answer i (.user (.ok uid)) => w.attempts[i]?.map fun attempt => .signIn attempt.phone uid
  | _ => none

/-- What is left to the screens. -/
def Action.isOwn : Action → Prop
  | .signUp .. | .signIn .. => False
  | _ => True

instance Action.decidableIsOwn (a : Action) : Decidable a.isOwn := by
  apply Action.casesOn (motive := fun a => Decidable a.isOwn) a <;> intros <;>
    unfold Action.isOwn <;> infer_instance

def oun (address : Addressing) : System (Entrance × World) (Entrance.Event ⊕ Action) :=
  (entrance address).drives app Entrance.Event.moves Action.isOwn

instance oun.decidableEnabled (address : Addressing) (u : Entrance × World)
    (c : Entrance.Event ⊕ Action) : Decidable ((oun address).Enabled u c) := by
  cases c with
  | inl event => exact inferInstanceAs (Decidable (event.Enabled address u.1))
  | inr a => exact inferInstanceAs (Decidable (a.isOwn ∧ Enabled u.2 a))

end Oun
