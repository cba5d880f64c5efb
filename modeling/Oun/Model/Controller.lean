import Mathlib.Algebra.Ring.Int.Defs
import Mathlib.Algebra.Ring.Nat
import Oun.Library.Transition
import Oun.Model.Handlers

/-! # The cart and the favourites

The controller holds references to `Furniture` objects that its callers hold as well, and it
changes these objects in place. The class has no equality of its own, so that two objects are
equal exactly if they are one. -/

namespace Oun

open Firestore Regex Transition

/-! ## Lists -/

/-- The loop collects the elements whose key it has not yet seen. -/
def distinctBy {α κ : Type*} [BEq κ] (getCompareValue : α → κ) (elements : List α) : List α :=
  elements.foldl (fun result element =>
    if !result.any fun x => getCompareValue x == getCompareValue element then result ++ [element]
    else result) []

/-- `clear` of a list. -/
def clear {α : Type*} (_ : List α) : List α := []

/-- `assignAll` clears the list and then adds the items. These are read when they are added:
what they depend on, the list itself included, is read by then. -/
def assignAll {α : Type*} (items : List α → List α) (list : List α) : List α :=
  let list := clear list
  list ++ items list

/-! ## Objects -/

/-- A reference to a `Furniture` object. -/
abbrev Ref := ℕ

abbrev Heap := Ref → Furniture

/-- An `int` has 64 bits and wraps around. -/
def wrap (n : ℤ) : ℤ := n.bmod (2 ^ 64)

def Heap.setQuantity (heap : Heap) (furniture : Ref) (quantity : ℤ) : Heap :=
  Function.update heap furniture { heap furniture with quantity }

def Heap.setFavorite (heap : Heap) (furniture : Ref) (isFavorite : Bool) : Heap :=
  Function.update heap furniture { heap furniture with isFavorite }

/-- `furniture.quantity--`: the value is the quantity before the decrement. -/
def Heap.postDecrement (heap : Heap) (furniture : Ref) : ℤ × Heap :=
  let quantity := (heap furniture).quantity
  (quantity, heap.setQuantity furniture (wrap (quantity - 1)))

/-- `furniture.quantity-- < 1 ? 0 : furniture.quantity--` -/
def Heap.decreased (heap : Heap) (furniture : Ref) : ℤ × Heap :=
  let (quantity, heap) := heap.postDecrement furniture
  if quantity < 1 then (0, heap) else heap.postDecrement furniture

/-! ## The controller -/

/-- The objects that exist are those before `next`. -/
structure OfficeFurnitureController where
  heap : Heap
  next : Ref
  cartFurniture : List Ref
  favoriteFurnitureList : List Ref
  totalPrice : Double

namespace OfficeFurnitureController

def isFavoriteFurniture (c : OfficeFurnitureController) (furniture : Ref) :
    OfficeFurnitureController :=
  let isFavorite := !(c.heap furniture).isFavorite
  { c with
    heap := c.heap.setFavorite furniture isFavorite
    favoriteFurnitureList :=
      if isFavorite then c.favoriteFurnitureList ++ [furniture]
      else c.favoriteFurnitureList.filter fun element => element ≠ furniture }

def increaseItem (c : OfficeFurnitureController) (furniture : Ref) : OfficeFurnitureController :=
  { c with heap := c.heap.setQuantity furniture (wrap ((c.heap furniture).quantity + 1)) }

def decreaseItem (c : OfficeFurnitureController) (furniture : Ref) : OfficeFurnitureController :=
  let (quantity, heap) := c.heap.decreased furniture
  let heap := heap.setQuantity furniture quantity
  { c with
    heap
    cartFurniture :=
      if (heap furniture).quantity < 1 then
        c.cartFurniture.filter fun element => element ≠ furniture
      else c.cartFurniture }

/-- The argument of `assignAll` is a list of its own by the time that the cart is cleared. -/
def addToCart (c : OfficeFurnitureController) (furniture : Ref) : OfficeFurnitureController :=
  if (c.heap furniture).quantity > 0 then
    let cartFurniture := c.cartFurniture ++ [furniture]
    let distinct := distinctBy (fun item => item) cartFurniture
    { c with cartFurniture := assignAll (fun _ => distinct) cartFurniture }
  else c

def clearCart (c : OfficeFurnitureController) : OfficeFurnitureController :=
  { c with cartFurniture := clear c.cartFurniture, totalPrice := .value 0 }

/-- A list screen builds a new object from the document of a task. -/
def build (c : OfficeFurnitureController) (d : Doc Task) : OfficeFurnitureController :=
  { c with heap := Function.update c.heap c.next (.ofDoc d), next := c.next + 1 }

/-! ## The transition system -/

inductive Call where
  | build (d : Doc Task)
  | addToCart (furniture : Ref)
  | increaseItem (furniture : Ref)
  | decreaseItem (furniture : Ref)
  | clearCart
  | isFavoriteFurniture (furniture : Ref)
  deriving DecidableEq, Repr

/-- The object that a call is about. -/
def Call.furniture? : Call → Option Ref
  | .addToCart furniture | .increaseItem furniture | .decreaseItem furniture
  | .isFavoriteFurniture furniture => some furniture
  | .build _ | .clearCart => none

def perform (c : OfficeFurnitureController) : Call → OfficeFurnitureController
  | .build d => c.build d
  | .addToCart furniture => c.addToCart furniture
  | .increaseItem furniture => c.increaseItem furniture
  | .decreaseItem furniture => c.decreaseItem furniture
  | .clearCart => c.clearCart
  | .isFavoriteFurniture furniture => c.isFavoriteFurniture furniture

end OfficeFurnitureController

/-- A new controller among any objects; its callers build more of them. -/
def controller (heap : Heap) (next : Ref) :
    System OfficeFurnitureController OfficeFurnitureController.Call where
  init := ⟨heap, next, [], [], .value 0⟩
  Enabled c call := ∀ furniture ∈ call.furniture?, furniture < c.next
  perform := OfficeFurnitureController.perform

instance controller.decidableEnabled (heap : Heap) (next : Ref) (c : OfficeFurnitureController)
    (call : OfficeFurnitureController.Call) : Decidable ((controller heap next).Enabled c call) :=
  inferInstanceAs (Decidable (∀ furniture ∈ call.furniture?, furniture < c.next))

end Oun
