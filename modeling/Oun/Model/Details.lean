import Oun.Model.Sessions

/-! # The details of the accepted offer

The part of the owner's detail screen that fetches the data of the provider. What is fetched
for `provider` is fixed when that part is built, except for the price: `_FetchPrice` takes the
provider as an argument, and reads the library variable when its query has been answered. -/

namespace Oun

open Firestore Regex

/-- The `FutureBuilder` over the four fetches: the provider it was built for, and what has
arrived. -/
structure Panel where
  prov : Option Uid
  name : Option Text := none
  rate : Option Double := none
  phone : Option Text := none
  price : Option Text := none
  deriving DecidableEq, Repr

/-- `lst`: the name, rating, phone number and price of the provider. -/
structure Details where
  name : Text
  rate : Double
  phone : Text
  price : Text
  deriving DecidableEq, Repr

/-- What the contact button hands to the package. -/
structure WhatsAppUnilink where
  phoneNumber : Text
  text : Text
  deriving DecidableEq, Repr

/-- The `onPressed` of the contact button. -/
def Details.link (lst : Details) : WhatsAppUnilink where
  phoneNumber := Regex.text ['0', '0', '9', '6', '6'] ++ lst.phone
  text := Regex.text ['H', 'e', 'y', '!', ' ', 'i', ' ', 'a', 'c', 'c', 'e', 'p', 't', 'e', 'd', ' ',
    'y', 'o', 'u', 'r', ' ', 'o', 'f', 'f', 'e', 'r', ' ', 'o', 'f', ' ', 'S', 'A', 'R', ' '] ++
    lst.price ++ Regex.text [' ', 'i', 'n', ' ', 'O', 'U', 'N', ' ']

/-- Nothing is drawn before all four have arrived. -/
def Panel.details (panel : Panel) : Option Details :=
  match panel.name, panel.rate, panel.phone, panel.price with
  | some name, some rate, some phone, some price => some ⟨name, rate, phone, price⟩
  | _, _, _, _ => none

/-- The app, and the panels of its screens. -/
structure Detailed where
  world : World
  panels : ℕ → Option Panel

inductive Detailed.Action where
  | app (action : Oun.Action)
  | build (screen : ℕ)
  | fetchUsername (screen : ℕ)
  | fetchRate (screen : ℕ)
  | fetchPhone (screen : ℕ)
  | fetchPrice (screen : ℕ) (documents : List (Doc Offer))
  deriving DecidableEq, Repr

def Screen.showsAccepted (screen : Screen) : Prop :=
  screen.isOpen = true ∧ screen.uid = screen.furniture.author ∧ screen.accepted = some true

instance (screen : Screen) : Decidable screen.showsAccepted := by
  unfold Screen.showsAccepted; infer_instance

/-- The document that a fetch of the panel asks for. It fails if there is none. -/
def Panel.user (panel : Panel) (s : Store) : Option User :=
  panel.prov.bind s.users

def Detailed.Action.Enabled (d : Detailed) : Detailed.Action → Prop
  | .app action => Oun.Enabled d.world action
  | .build i => d.world.OnScreen i Screen.showsAccepted
  | .fetchUsername i => ∃ panel ∈ d.panels i, panel.name = none ∧ (panel.user d.world.store).isSome
  | .fetchRate i => ∃ panel ∈ d.panels i, panel.rate = none ∧ (panel.user d.world.store).isSome
  | .fetchPhone i => ∃ panel ∈ d.panels i, panel.phone = none ∧ (panel.user d.world.store).isSome
  | .fetchPrice i documents => (∃ panel ∈ d.panels i, panel.price = none) ∧
      d.world.OnScreen i fun screen =>
        documents.Perm (d.world.store.offers.whereEqualTo Offer.task screen.furniture.id)

instance Detailed.Action.decidableEnabled (d : Detailed) (action : Detailed.Action) :
    Decidable (action.Enabled d) := by
  apply Detailed.Action.casesOn (motive := fun a => Decidable (a.Enabled d)) action <;> intros <;>
    unfold Detailed.Action.Enabled <;> infer_instance

def Detailed.setPanel (d : Detailed) (i : ℕ) (panel : Option Panel) : Detailed :=
  { d with panels := fun j => if j = i then panel else d.panels j }

/-- The value that a fetch of the provider's document returns. -/
def Detailed.fetched {α : Type} (d : Detailed) (panel : Panel) (field : User → α) : Option α :=
  (panel.user d.world.store).map field

def Detailed.withPanel (d : Detailed) (i : ℕ) (f : Panel → Panel) : Detailed :=
  d.setPanel i ((d.panels i).map f)

/-- The library variable `provider` as the screen reads it. -/
def World.providerOn (w : World) (i : ℕ) : Option Uid :=
  w.screens[i]?.bind fun screen => (w.sessions screen.session).provider

/-- The panel is gone while the screen, built again, waits for `isAccepted()`. -/
def Detailed.performApp (d : Detailed) (action : Oun.Action) : Detailed :=
  let d' := { d with world := Oun.perform d.world action }
  match action with
  | .build i => d'.setPanel i none
  | _ => d'

def Detailed.perform (d : Detailed) : Detailed.Action → Detailed
  | .app action => d.performApp action
  | .build i => d.setPanel i (some { prov := d.world.providerOn i })
  | .fetchUsername i => d.withPanel i fun panel =>
      { panel with name := d.fetched panel User.name }
  | .fetchRate i => d.withPanel i fun panel =>
      { panel with rate := d.fetched panel User.rate }
  | .fetchPhone i => d.withPanel i fun panel =>
      { panel with phone := d.fetched panel User.phone }
  | .fetchPrice i documents => d.withPanel i fun panel =>
      { panel with price := some (Oun.fetchPrice documents (d.world.providerOn i)) }

/-- The app with the details of its screens. -/
def detailed : Transition.System Detailed Detailed.Action where
  init := ⟨World.init, fun _ => none⟩
  Enabled d action := action.Enabled d
  perform := Detailed.perform

/-- The screen of the task is open and draws these details. -/
def Detailed.Shows (d : Detailed) (i : ℕ) (taskId : DocId) (details : Details) : Prop :=
  (d.world.OnScreen i fun screen => screen.showsAccepted ∧ screen.furniture.id = taskId) ∧
    (d.panels i).bind Panel.details = some details

instance (d : Detailed) (i : ℕ) (taskId : DocId) (details : Details) :
    Decidable (d.Shows i taskId details) := by
  unfold Detailed.Shows; infer_instance

end Oun
