import Mathlib.Algebra.BigOperators.Group.List.Lemmas
import Mathlib.Algebra.Order.BigOperators.Group.List
import Mathlib.Algebra.GroupWithZero.Nat
import Mathlib.Algebra.Order.Group.Nat
import Mathlib.Data.List.Nodup

/-! # Pools of processes

A pool is a list of processes of which one moves at a time. What the processes still
have to do is measured by a sum over the pool. -/

namespace Pool

variable {π : Type*}

def total (f : π → ℕ) (pool : List π) : ℕ :=
  (pool.map f).sum

@[simp] theorem total_nil (f : π → ℕ) : total f ([] : List π) = 0 := rfl

@[simp] theorem total_append (f : π → ℕ) (front back : List π) :
    total f (front ++ back) = total f front + total f back := by
  simp [total]

@[simp] theorem total_singleton (f : π → ℕ) (p : π) : total f [p] = f p := by
  simp [total]

theorem le_total (f : π → ℕ) {pool : List π} {p : π} (hp : p ∈ pool) :
    f p ≤ total f pool :=
  List.single_le_sum (by simp) _ (List.mem_map_of_mem hp)

theorem total_eq_zero (f : π → ℕ) {pool : List π} :
    total f pool = 0 ↔ ∀ p ∈ pool, f p = 0 := by
  simp [total, List.sum_eq_zero_iff]

/-- Replacing one process changes the total by the difference of the two. -/
theorem total_set (f : π → ℕ) {pool : List π} {k : ℕ} {p : π} (q : π)
    (hk : pool[k]? = some p) :
    total f (pool.set k q) + f p = total f pool + f q := by
  induction pool generalizing k with
  | nil => simp at hk
  | cons head pool ih =>
      cases k with
      | zero =>
          obtain rfl : head = p := by simpa using hk
          simp only [total, List.set_cons_zero, List.map_cons, List.sum_cons]
          omega
      | succ k =>
          have := ih (k := k) (by simpa using hk)
          simp only [total, List.set_cons_succ, List.map_cons, List.sum_cons] at this ⊢
          omega

theorem total_add (f g : π → ℕ) (pool : List π) :
    total (fun p => f p + g p) pool = total f pool + total g pool := by
  simp [total, List.sum_map_add]

theorem total_congr {f g : π → ℕ} {pool : List π} (h : ∀ p ∈ pool, f p = g p) :
    total f pool = total g pool := by
  simp only [total, List.map_congr_left h]

theorem total_mono {f g : π → ℕ} {pool : List π} (h : ∀ p ∈ pool, f p ≤ g p) :
    total f pool ≤ total g pool :=
  List.sum_le_sum h

theorem total_one (pool : List π) : total (fun _ => 1) pool = pool.length := by
  simp [total]

theorem forall_set {P : π → Prop} {pool : List π} {k : ℕ} {q : π}
    (hpool : ∀ p ∈ pool, P p) (hq : P q) : ∀ p ∈ pool.set k q, P p := by
  intro p hp
  rcases List.mem_or_eq_of_mem_set hp with hp | rfl
  · exact hpool p hp
  · exact hq

theorem forall_append {P : π → Prop} {pool : List π} {q : π}
    (hpool : ∀ p ∈ pool, P p) (hq : P q) : ∀ p ∈ pool ++ [q], P p := by
  intro p hp
  rcases List.mem_append.mp hp with hp | hp
  · exact hpool p hp
  · rw [List.mem_singleton.mp hp]
    exact hq

/-- Another process than the moved one is still in the pool. -/
theorem mem_set_of_ne {pool : List π} {k : ℕ} {p q r : π} (hk : pool[k]? = some p)
    (hr : r ∈ pool) (hne : r ≠ p) : r ∈ pool.set k q := by
  obtain ⟨i, hi⟩ := List.mem_iff_getElem?.mp hr
  refine List.mem_iff_getElem?.mpr ⟨i, ?_⟩
  rw [List.getElem?_set_ne, hi]
  rintro rfl
  rw [hk] at hi
  exact hne (Option.some.inj hi).symm

theorem mem_set_self {pool : List π} {k : ℕ} {p : π} (q : π) (hk : pool[k]? = some p) :
    q ∈ pool.set k q := by
  obtain ⟨hlt, -⟩ := List.getElem?_eq_some_iff.mp hk
  exact List.mem_set hlt q

/-! ## Counting by key -/

private theorem total_indicator [DecidableEq π] {keys : List π} (hnodup : keys.Nodup) {k : π}
    (hk : k ∈ keys) : total (fun x => if k = x then 1 else 0) keys = 1 := by
  rw [total, List.sum_map_eq_nsmul_single k _ fun x hx _ => by simp [Ne.symm hx]]
  simp [List.count_eq_one_of_mem hnodup hk]

/-- If all counted elements have a key of the list, they are counted key by key. -/
theorem countP_eq_total {α κ : Type*} [DecidableEq κ] {keys : List κ} (hnodup : keys.Nodup)
    (key : α → κ) (q : α → Bool) {elements : List α}
    (hkeys : ∀ a ∈ elements, q a = true → key a ∈ keys) :
    elements.countP q =
      total (fun k => elements.countP fun a => q a && decide (key a = k)) keys := by
  induction elements with
  | nil => simp [total]
  | cons a elements ih =>
      have htail := ih fun b hb => hkeys b (List.mem_cons_of_mem _ hb)
      have hhead : (if q a = true then 1 else 0) =
          total (fun k => if (q a && decide (key a = k)) = true then 1 else 0) keys := by
        by_cases hq : q a = true
        · simpa [hq] using (total_indicator hnodup (hkeys a List.mem_cons_self hq)).symm
        · simp [hq, total]
      simp only [List.countP_cons, total_add, htail, hhead]

end Pool
