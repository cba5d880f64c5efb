import Oun.Model.Profile
import Oun.Model.Whole

/-! # The home screens of all phones

On every phone runs a process of the app. The processes read the documents that sign-ups have
stored, and nobody is signed in but by the entrance. -/

namespace Oun

open Firestore Regex Transition

/-- What the home screens read of a user. -/
def User.get (user : User) : Field → Text
  | .name => user.name
  | .phone => user.phone
  | .email => user.email

structure Homes where
  users : Uid → Option User
  phones : ℕ → AppProcess

def Homes.docs (h : Homes) (uid : Uid) : Snapshot := fun field =>
  (h.users uid).map fun user => user.get field

inductive Homes.Action where
  /-- A document is stored in `users`. -/
  | stored (d : Doc User)
  /-- A request has signed the user in. What is left of a session before is over. -/
  | signIn (phone : ℕ) (uid : Uid)
  | event (phone : ℕ) (event : AppProcess.Event)

/-- A user is signed in while no page is shown. -/
def Homes.Enabled (v : Validators) (h : Homes) : Homes.Action → Prop
  | .stored d => (h.users d.id).isNone
  | .signIn phone _ => ∀ b ∈ (h.phones phone).builders, b.mounted = false
  | .event _ (.signIn _) => False
  | .event phone event => event.Enabled v (h.phones phone)

instance Homes.decidableEnabled (v : Validators) (h : Homes) (a : Homes.Action) :
    Decidable (h.Enabled v a) := by
  apply Homes.Action.casesOn (motive := fun a => Decidable (h.Enabled v a)) a
  · intro d; unfold Homes.Enabled; infer_instance
  · intro phone uid; unfold Homes.Enabled; infer_instance
  · intro phone event
    apply AppProcess.Event.casesOn
      (motive := fun e => Decidable (h.Enabled v (.event phone e))) event <;>
      intros <;> unfold Homes.Enabled <;> infer_instance

def Homes.put (h : Homes) (phone : ℕ) (p : AppProcess) : Homes :=
  { h with phones := fun other => if other = phone then p else h.phones other }

def Homes.perform (h : Homes) : Homes.Action → Homes
  | .stored d => { h with
      users := fun uid => if uid = d.id then some d.data else h.users uid }
  | .signIn phone uid => h.put phone { (h.phones phone).signOut with user := some uid }
  | .event phone event => h.put phone ((h.phones phone).perform h.docs event)

def homes (v : Validators) : System Homes Homes.Action where
  init := ⟨fun _ => none, fun _ => .initial⟩
  Enabled := Homes.Enabled v
  perform := Homes.perform

/-! ## Below the entrance -/

/-- The home screens see of the entrance what the task screens see of it. -/
def Entrance.Event.movesHome (w : Entrance) (event : Entrance.Event) : Option Homes.Action :=
  match event.moves w with
  | some (.signUp uid user) => some (.stored ⟨uid, user⟩)
  | some (.signIn phone uid) => some (.signIn phone uid)
  | _ => none

/-- What is left to the home screens. -/
def Homes.Action.isOwn : Homes.Action → Prop
  | .event .. => True
  | _ => False

instance Homes.Action.decidableIsOwn (a : Homes.Action) : Decidable a.isOwn := by
  apply Homes.Action.casesOn (motive := fun a => Decidable a.isOwn) a <;> intros <;>
    unfold Homes.Action.isOwn <;> infer_instance

/-- The entrance with the home screens of all phones. -/
def everybody (address : Addressing) (v : Validators) :
    System (Entrance × Homes) (Entrance.Event ⊕ Homes.Action) :=
  (entrance address).drives (homes v) Entrance.Event.movesHome Homes.Action.isOwn

instance everybody.decidableEnabled (address : Addressing) (v : Validators) (u : Entrance × Homes)
    (c : Entrance.Event ⊕ Homes.Action) : Decidable ((everybody address v).Enabled u c) := by
  cases c with
  | inl event => exact inferInstanceAs (Decidable (event.Enabled address u.1))
  | inr a => exact inferInstanceAs (Decidable (a.isOwn ∧ u.2.Enabled v a))

end Oun
