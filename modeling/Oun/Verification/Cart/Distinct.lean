import Mathlib.Data.List.Induction
import Oun.Model.Controller

/-! # One element for each key

`distinctBy` keeps the first element of every key. It has collected them before the cart is
cleared for them. -/

namespace Oun

open Transition

section DistinctBy

variable {α κ : Type*} [BEq κ] (key : α → κ)

/-! ## The loop -/

theorem distinctBy_snoc (elements : List α) (e : α) :
    distinctBy key (elements ++ [e]) =
      if (distinctBy key elements).any fun x => key x == key e then distinctBy key elements
      else distinctBy key elements ++ [e] := by
  have hloop : distinctBy key (elements ++ [e]) =
      if !(distinctBy key elements).any fun x => key x == key e then distinctBy key elements ++ [e]
      else distinctBy key elements := by
    unfold distinctBy
    rw [List.foldl_append, List.foldl_cons, List.foldl_nil]
  rw [hloop]
  cases (distinctBy key elements).any fun x => key x == key e <;> rfl

theorem distinctBy_sublist (elements : List α) :
    (distinctBy key elements).Sublist elements := by
  induction elements using List.reverseRecOn with
  | nil => exact .refl _
  | append_singleton elements e ih =>
      rw [distinctBy_snoc]
      split
      · exact ih.trans (List.sublist_append_left _ _)
      · exact ih.append (.refl _)

/-- No element has the key of one before it. -/
theorem distinctBy_pairwise (elements : List α) :
    (distinctBy key elements).Pairwise fun x y => (key x == key y) = false := by
  induction elements using List.reverseRecOn with
  | nil => exact .nil
  | append_singleton elements e ih =>
      rw [distinctBy_snoc]
      split
      · exact ih
      · rename_i hnew
        refine List.pairwise_append.mpr ⟨ih, List.pairwise_singleton _ _, fun x hx y hy => ?_⟩
        rw [List.mem_singleton.mp hy]
        simp only [List.any_eq_true, not_exists, not_and, Bool.not_eq_true] at hnew
        exact hnew x hx

/-- What has been collected stays in front. -/
theorem distinctBy_prefix (front back : List α) :
    distinctBy key front <+: distinctBy key (front ++ back) := by
  induction back using List.reverseRecOn with
  | nil => simp
  | append_singleton back e ih =>
      rw [← List.append_assoc, distinctBy_snoc]
      split
      · exact ih
      · exact ih.trans (List.prefix_append _ _)

/-- An element whose key is not among those before it is kept in its place. -/
theorem distinctBy_first {front : List α} {x : α} (back : List α)
    (hnew : ∀ y ∈ front, (key y == key x) = false) :
    ∃ rest, distinctBy key (front ++ x :: back) = distinctBy key front ++ x :: rest := by
  have hkept : distinctBy key (front ++ [x]) = distinctBy key front ++ [x] := by
    rw [distinctBy_snoc, if_neg]
    simp only [List.any_eq_true, not_exists, not_and, Bool.not_eq_true]
    exact fun y hy => hnew y ((distinctBy_sublist key front).subset hy)
  obtain ⟨rest, hrest⟩ := distinctBy_prefix key (front ++ [x]) back
  refine ⟨rest, ?_⟩
  rw [List.append_cons, ← hrest, hkept, List.append_assoc, List.singleton_append]

/-- Nothing is left out of elements with different keys. -/
theorem distinctBy_of_pairwise {elements : List α}
    (h : elements.Pairwise fun x y => (key x == key y) = false) :
    distinctBy key elements = elements := by
  induction elements using List.reverseRecOn with
  | nil => rfl
  | append_singleton elements e ih =>
      obtain ⟨hfront, -, hlast⟩ := List.pairwise_append.mp h
      rw [distinctBy_snoc, ih hfront, if_neg]
      simp only [List.any_eq_true, not_exists, not_and, Bool.not_eq_true]
      exact fun x hx => hlast x hx e (by simp)

/-- The first element with a given key. -/
theorem exists_first [EquivBEq κ] {elements : List α} {e : α} (he : e ∈ elements) :
    ∃ front x back, elements = front ++ x :: back ∧ (key x == key e) = true ∧
      ∀ y ∈ front, (key y == key e) = false := by
  have hfind : (elements.find? fun x => key x == key e).isSome := by
    rw [List.find?_isSome]
    exact ⟨e, he, BEq.rfl⟩
  obtain ⟨x, hx⟩ := Option.isSome_iff_exists.mp hfind
  obtain ⟨hkey, front, back, hsplit, hfront⟩ := List.find?_eq_some_iff_append.mp hx
  exact ⟨front, x, back, hsplit, hkey, fun y hy => by simpa using hfront y hy⟩

/-- Every key that occurs is kept on its first element. -/
theorem distinctBy_keeps [EquivBEq κ] {elements : List α} {e : α} (he : e ∈ elements) :
    ∃ front x back rest, elements = front ++ x :: back ∧ (key x == key e) = true ∧
      (∀ y ∈ front, (key y == key e) = false) ∧
      distinctBy key elements = distinctBy key front ++ x :: rest := by
  obtain ⟨front, x, back, rfl, hkey, hfront⟩ := exists_first key he
  have hnew : ∀ y ∈ front, (key y == key x) = false := by
    intro y hy
    by_contra hsame
    have hyx : (key y == key x) = true := by simpa using hsame
    have hye := hfront y hy
    rw [BEq.trans hyx hkey] at hye
    cases hye
  obtain ⟨rest, hrest⟩ := distinctBy_first key back hnew
  exact ⟨front, x, back, rest, rfl, hkey, hfront, hrest⟩

end DistinctBy

/-! ## The cart -/

/-- The cart has afterwards what `distinctBy` has kept of it. -/
theorem addToCart_cart {c : OfficeFurnitureController} {furniture : Ref}
    (h : 0 < (c.heap furniture).quantity) :
    (c.addToCart furniture).cartFurniture =
      distinctBy (fun item => item) (c.cartFurniture ++ [furniture]) := by
  unfold OfficeFurnitureController.addToCart
  rw [if_pos h]
  rfl

/-- `distinctBy` keeps the elements in order, no two with one key, and of every key the first;
applied again it changes nothing. What it has kept of the cart is put into the cart, so that no
item is lost. -/
theorem distinctBy_correct {α κ : Type*} [BEq κ] [EquivBEq κ] (key : α → κ) (elements : List α) :
    (distinctBy key elements).Sublist elements ∧
    ((distinctBy key elements).Pairwise fun x y => (key x == key y) = false) ∧
    (∀ e ∈ elements, ∃ front x back rest, elements = front ++ x :: back ∧
      (key x == key e) = true ∧ (∀ y ∈ front, (key y == key e) = false) ∧
      distinctBy key elements = distinctBy key front ++ x :: rest) ∧
    distinctBy key (distinctBy key elements) = distinctBy key elements ∧
    ∀ (c : OfficeFurnitureController) furniture, 0 < (c.heap furniture).quantity →
      (c.addToCart furniture).cartFurniture =
        distinctBy (fun item => item) (c.cartFurniture ++ [furniture]) ∧
      ∀ item ∈ c.cartFurniture, item ∈ (c.addToCart furniture).cartFurniture := by
  refine ⟨distinctBy_sublist key elements, distinctBy_pairwise key elements,
    fun e he => distinctBy_keeps key he, distinctBy_of_pairwise key (distinctBy_pairwise key _),
    fun c furniture hquantity => ⟨addToCart_cart hquantity, fun item hitem => ?_⟩⟩
  have hmem : item ∈ c.cartFurniture ++ [furniture] := List.mem_append_left _ hitem
  obtain ⟨front, x, back, rest, -, hx, -, hkept⟩ := distinctBy_keeps (fun item => item) hmem
  rw [addToCart_cart hquantity, hkept, ← eq_of_beq hx]
  simp

/-- A view of the cart itself would be empty by the time that it is read. -/
example : assignAll (distinctBy fun item => item) [3, 4] = ([] : List Ref) := rfl

namespace Scenario

def twoItems : OfficeFurnitureController where
  heap _ := ⟨0, 1, [], [], .riyadh, [], 1, false⟩
  next := 3
  cartFurniture := [0, 1]
  favoriteFurnitureList := []
  totalPrice := .value 0

end Scenario

theorem distinctBy_correct_tens :
    distinctBy (· / 10) [11, 23, 12, 25, 31] = [11, 23, 31] ∧
    (distinctBy (· / 10) [11, 23, 12, 25, 31]).Sublist [11, 23, 12, 25, 31] ∧
    (Scenario.twoItems.addToCart 2).cartFurniture = [0, 1, 2] ∧
    ∀ item ∈ Scenario.twoItems.cartFurniture,
      item ∈ (Scenario.twoItems.addToCart 2).cartFurniture := by
  obtain ⟨hsublist, -, -, -, hcart⟩ := distinctBy_correct (· / 10) [11, 23, 12, 25, 31]
  obtain ⟨hadded, hkept⟩ := hcart Scenario.twoItems 2 (by decide)
  exact ⟨by decide, hsublist, hadded.trans (by decide), hkept⟩

end Oun
