import Oun.Verification.Cart.Distinct

/-! # Quantities

No quantity becomes negative and nothing stays in the cart at 0, unless an `int` overflows. -/

namespace Oun

open Firestore Regex Transition

/-! ## Objects -/

variable (heap : Heap) (furniture other : Ref) (quantity : ℤ)

@[simp] theorem Heap.setQuantity_self :
    heap.setQuantity furniture quantity furniture = { heap furniture with quantity } := by
  simp [Heap.setQuantity]

theorem Heap.setQuantity_of_ne {furniture other : Ref} (h : other ≠ furniture) :
    heap.setQuantity furniture quantity other = heap other := by
  simp [Heap.setQuantity, h]

@[simp] theorem Heap.setQuantity_setQuantity (quantity' : ℤ) :
    (heap.setQuantity furniture quantity).setQuantity furniture quantity' =
      heap.setQuantity furniture quantity' := by
  simp [Heap.setQuantity]

theorem wrap_of_fits {n : ℤ} (hlow : -2 ^ 63 ≤ n) (hhigh : n < 2 ^ 63) : wrap n = n := by
  unfold wrap
  rw [Int.bmod_def]
  split <;> omega

/-! ## The calls -/

/-- What `decreaseItem` may do: it lowers the quantity by one, at most to 0, removes the object
from the cart if it is 0 then, and touches nothing else. -/
structure Decreased (c c' : OfficeFurnitureController) (furniture : Ref) : Prop where
  quantity : (c'.heap furniture).quantity =
    if 1 ≤ (c.heap furniture).quantity then (c.heap furniture).quantity - 1 else 0
  removed : furniture ∈ c'.cartFurniture ↔
    furniture ∈ c.cartFurniture ∧ (c'.heap furniture).quantity ≠ 0
  objects : ∀ other, other ≠ furniture → c'.heap other = c.heap other
  cart : ∀ other, other ≠ furniture → (other ∈ c'.cartFurniture ↔ other ∈ c.cartFurniture)
  favorites : c'.favoriteFurnitureList = c.favoriteFurnitureList

/-- The quantity of every object is an `int` that is not negative, and positive in the cart. -/
structure Stocked (c : OfficeFurnitureController) : Prop where
  range : ∀ furniture, 0 ≤ (c.heap furniture).quantity ∧ (c.heap furniture).quantity < 2 ^ 63
  cart : ∀ furniture ∈ c.cartFurniture, 1 ≤ (c.heap furniture).quantity

theorem decreased_of_lt {heap : Heap} {furniture : Ref} (h : (heap furniture).quantity < 1) :
    heap.decreased furniture =
      (0, heap.setQuantity furniture (wrap ((heap furniture).quantity - 1))) :=
  if_pos h

theorem decreased_of_not_lt {heap : Heap} {furniture : Ref}
    (h : ¬ (heap furniture).quantity < 1) :
    heap.decreased furniture =
      (heap.setQuantity furniture (wrap ((heap furniture).quantity - 1))).postDecrement furniture :=
  if_neg h

/-- The value that `decreaseItem` assigns, after it has decremented the field once or twice. -/
theorem decreased_fst {heap : Heap} {furniture : Ref}
    (hrange : 0 ≤ (heap furniture).quantity ∧ (heap furniture).quantity < 2 ^ 63) :
    (heap.decreased furniture).1 =
      if 1 ≤ (heap furniture).quantity then (heap furniture).quantity - 1 else 0 := by
  by_cases hzero : (heap furniture).quantity < 1
  · rw [decreased_of_lt hzero, if_neg (by omega)]
  · rw [decreased_of_not_lt hzero, if_pos (by omega), Heap.postDecrement, Heap.setQuantity_self]
    exact wrap_of_fits (by omega) (by omega)

/-- The assignment replaces what the decrements have left. -/
theorem decreased_snd_setQuantity :
    (heap.decreased furniture).2.setQuantity furniture quantity =
      heap.setQuantity furniture quantity := by
  by_cases hzero : (heap furniture).quantity < 1
  · rw [decreased_of_lt hzero, Heap.setQuantity_setQuantity]
  · rw [decreased_of_not_lt hzero, Heap.postDecrement, Heap.setQuantity_setQuantity,
      Heap.setQuantity_setQuantity]

theorem decreaseItem_decreased {c : OfficeFurnitureController} {furniture : Ref}
    (hrange : 0 ≤ (c.heap furniture).quantity ∧ (c.heap furniture).quantity < 2 ^ 63) :
    Decreased c (c.decreaseItem furniture) furniture := by
  have hheap : (c.decreaseItem furniture).heap =
      c.heap.setQuantity furniture (c.heap.decreased furniture).1 :=
    decreased_snd_setQuantity ..
  have hquantity : ((c.decreaseItem furniture).heap furniture).quantity =
      (c.heap.decreased furniture).1 := by
    rw [hheap, Heap.setQuantity_self]
  have hcart : (c.decreaseItem furniture).cartFurniture =
      if (c.heap.decreased furniture).1 < 1 then
        c.cartFurniture.filter fun element => element ≠ furniture
      else c.cartFurniture := by
    rw [← hquantity]
    rfl
  have hvalue := decreased_fst hrange
  refine ⟨by rw [hquantity, hvalue], ?_, fun other hne => ?_, fun other hne => ?_, rfl⟩
  · rw [hcart, hquantity]
    split
    · have hzero : (c.heap.decreased furniture).1 = 0 := by
        split at hvalue <;> omega
      simp [hzero]
    · exact (and_iff_left (by omega)).symm
  · rw [hheap, Heap.setQuantity_of_ne _ _ hne]
  · rw [hcart]
    split
    · simp [hne]
    · rfl

/-- The call does not increase the largest `int`. -/
def OfficeFurnitureController.Call.Fits (c : OfficeFurnitureController) :
    OfficeFurnitureController.Call → Prop
  | .increaseItem furniture => (c.heap furniture).quantity ≠ 2 ^ 63 - 1
  | _ => True

instance OfficeFurnitureController.Call.decidableFits (c : OfficeFurnitureController)
    (call : OfficeFurnitureController.Call) : Decidable (call.Fits c) := by
  apply OfficeFurnitureController.Call.casesOn (motive := fun call => Decidable (call.Fits c)) call
    <;> intros <;> unfold OfficeFurnitureController.Call.Fits <;> infer_instance

/-! ## Whole runs -/

theorem Stocked.build {c : OfficeFurnitureController} (h : Stocked c) (d : Doc Task) :
    Stocked (c.build d) := by
  have hbuilt : ∀ furniture, ((c.build d).heap furniture).quantity =
      if furniture = c.next then 1 else (c.heap furniture).quantity := by
    intro furniture
    by_cases hnext : furniture = c.next
    · simp [OfficeFurnitureController.build, hnext, Furniture.ofDoc]
    · simp [OfficeFurnitureController.build, hnext]
  refine ⟨fun furniture => ?_, fun furniture hmem => ?_⟩
  · rw [hbuilt]
    split
    · omega
    · exact h.range furniture
  · rw [hbuilt]
    split
    · omega
    · exact h.cart furniture hmem

theorem Stocked.addToCart {c : OfficeFurnitureController} (h : Stocked c) (furniture : Ref) :
    Stocked (c.addToCart furniture) := by
  by_cases hquantity : 0 < (c.heap furniture).quantity
  · have hheap : (c.addToCart furniture).heap = c.heap := by
      unfold OfficeFurnitureController.addToCart
      rw [if_pos hquantity]
    refine ⟨by rw [hheap]; exact h.range, fun other hmem => ?_⟩
    rw [addToCart_cart hquantity] at hmem
    rw [hheap]
    rcases List.mem_append.mp ((distinctBy_sublist _ _).subset hmem) with hmem | hmem
    · exact h.cart other hmem
    · rw [List.mem_singleton.mp hmem]
      exact hquantity
  · have hsame : c.addToCart furniture = c := if_neg hquantity
    rw [hsame]
    exact h

theorem Stocked.increaseItem {c : OfficeFurnitureController} (h : Stocked c) {furniture : Ref}
    (hfits : (c.heap furniture).quantity ≠ 2 ^ 63 - 1) : Stocked (c.increaseItem furniture) := by
  have hrange := h.range furniture
  have hincreased : ∀ other, ((c.increaseItem furniture).heap other).quantity =
      if other = furniture then (c.heap furniture).quantity + 1 else (c.heap other).quantity := by
    intro other
    have hheap : (c.increaseItem furniture).heap =
        c.heap.setQuantity furniture (wrap ((c.heap furniture).quantity + 1)) := rfl
    rw [hheap]
    split
    · rename_i hself
      rw [hself, Heap.setQuantity_self]
      exact wrap_of_fits (by omega) (by omega)
    · rename_i hne
      rw [Heap.setQuantity_of_ne _ _ hne]
  refine ⟨fun other => ?_, fun other hmem => ?_⟩
  · rw [hincreased]
    split
    · omega
    · exact h.range other
  · rw [hincreased]
    split
    · omega
    · exact h.cart other hmem

theorem Stocked.decreaseItem {c : OfficeFurnitureController} (h : Stocked c) (furniture : Ref) :
    Stocked (c.decreaseItem furniture) := by
  have hdecreased := decreaseItem_decreased (h.range furniture)
  have hself := hdecreased.quantity
  have hrange := h.range furniture
  refine ⟨fun other => ?_, fun other hmem => ?_⟩
  · by_cases hne : other = furniture
    · subst hne
      split at hself <;> omega
    · rw [hdecreased.objects other hne]
      exact h.range other
  · by_cases hne : other = furniture
    · subst hne
      have hzero := (hdecreased.removed.mp hmem).2
      split at hself <;> omega
    · rw [hdecreased.objects other hne]
      exact h.cart other ((hdecreased.cart other hne).mp hmem)

theorem Stocked.isFavoriteFurniture {c : OfficeFurnitureController} (h : Stocked c)
    (furniture : Ref) : Stocked (c.isFavoriteFurniture furniture) := by
  have hsame : ∀ other, ((c.isFavoriteFurniture furniture).heap other).quantity =
      (c.heap other).quantity := by
    intro other
    unfold OfficeFurnitureController.isFavoriteFurniture Heap.setFavorite
    by_cases hself : other = furniture
    · subst hself
      simp
    · simp [hself]
  exact ⟨fun other => hsame other ▸ h.range other,
    fun other hmem => hsame other ▸ h.cart other hmem⟩

theorem Stocked.perform {c : OfficeFurnitureController} (h : Stocked c)
    {call : OfficeFurnitureController.Call} (hfits : call.Fits c) : Stocked (c.perform call) := by
  cases call with
  | build d => exact h.build d
  | addToCart furniture => exact h.addToCart furniture
  | increaseItem furniture => exact h.increaseItem hfits
  | decreaseItem furniture => exact h.decreaseItem furniture
  | clearCart => exact ⟨h.range, fun _ hmem => absurd hmem List.not_mem_nil⟩
  | isFavoriteFurniture furniture => exact h.isFavoriteFurniture furniture

/-- In every run that never increases the largest `int`, quantities stay non-negative and those
in the cart positive, and `decreaseItem` would do in every state what it may. -/
theorem cart_stocked {heap : Heap} {next : Ref}
    (hheap : ∀ furniture, 0 ≤ (heap furniture).quantity ∧ (heap furniture).quantity < 2 ^ 63)
    {trace : List (OfficeFurnitureController × OfficeFurnitureController.Call)}
    {c : OfficeFurnitureController} (run : Run (controller heap next) (controller heap next).init
      trace c) (hfits : Meets (fun u call => call.Fits u) trace) :
    ∀ u ∈ visited trace c, Stocked u ∧
      ∀ furniture, Decreased u (u.decreaseItem furniture) furniture := by
  intro u hu
  obtain ⟨front, back, rfl, hfront, -⟩ := run.split_visited hu
  have hstocked : Stocked u := by
    refine hfront.invariant ((meets_append ..).mp hfits).1
      ⟨hheap, fun _ hmem => absurd hmem List.not_mem_nil⟩ ?_
    exact fun v call hv _ hCv => Stocked.perform hv hCv
  exact ⟨hstocked, fun furniture => decreaseItem_decreased (hstocked.range furniture)⟩

namespace Scenario

def leak : Doc Task :=
  ⟨0, ⟨1, text ['L', 'e', 'a', 'k'], text ['S', 'i', 'n', 'k'], .riyadh, .maintenance⟩⟩

/-- Objects that all have the given quantity. -/
def stock (quantity : ℤ) : Heap := fun _ => { Furniture.ofDoc leak with quantity }

def bought : List OfficeFurnitureController.Call :=
  [.addToCart 0, .increaseItem 0, .decreaseItem 0, .addToCart 1, .decreaseItem 0,
    .isFavoriteFurniture 1]

def increased : List OfficeFurnitureController.Call := [.increaseItem 0]

end Scenario

theorem cart_stocked_bought :
    ((controller (Scenario.stock 1) 2).final (controller (Scenario.stock 1) 2).init
      Scenario.bought).cartFurniture = [1] ∧
    ∀ u ∈ visited ((controller (Scenario.stock 1) 2).steps (controller (Scenario.stock 1) 2).init
        Scenario.bought) ((controller (Scenario.stock 1) 2).final
          (controller (Scenario.stock 1) 2).init Scenario.bought),
      Stocked u ∧ ∀ furniture, Decreased u (u.decreaseItem furniture) furniture :=
  ⟨by decide, cart_stocked (fun _ => (by decide : (0 : ℤ) ≤ 1 ∧ (1 : ℤ) < 2 ^ 63))
    ((controller (Scenario.stock 1) 2).run_steps _ Scenario.bought (by decide)) (by decide)⟩

/-- The largest `int` is increased to the smallest. -/
theorem quantity_overflows :
    ¬ ∀ heap next, (∀ furniture, 0 ≤ (heap furniture).quantity ∧
        (heap furniture).quantity < 2 ^ 63) →
      ∀ c, Reachable (controller heap next) c → ∀ furniture, 0 ≤ (c.heap furniture).quantity := by
  intro h
  have hreachable : Reachable (controller (Scenario.stock (2 ^ 63 - 1)) 1)
      ((controller (Scenario.stock (2 ^ 63 - 1)) 1).final
        (controller (Scenario.stock (2 ^ 63 - 1)) 1).init Scenario.increased) :=
    ⟨_, System.run_steps _ _ Scenario.increased (by decide)⟩
  have hquantity := h (Scenario.stock (2 ^ 63 - 1)) 1
    (fun _ => (by decide : (0 : ℤ) ≤ 2 ^ 63 - 1 ∧ (2 ^ 63 - 1 : ℤ) < 2 ^ 63)) _ hreachable 0
  revert hquantity
  decide

end Oun
