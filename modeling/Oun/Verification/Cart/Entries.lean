import Oun.Verification.Cart.Quantities

/-! # One entry for each task

The list screens build a new object for a task whenever they are drawn, and the controller only
knows objects. Its lists have one entry for each task as long as one object at a time stands for
a task. -/

namespace Oun

open Firestore Regex Transition

/-- For each task, the object that was last built or toggled for it. -/
abbrev Latest := DocId → Option Ref

def latestObject (latest : Latest) (c : OfficeFurnitureController) :
    OfficeFurnitureController.Call → Latest
  | .build d => Function.update latest d.id (some c.next)
  | .isFavoriteFurniture furniture =>
      Function.update latest (c.heap furniture).id (some furniture)
  | _ => latest

/-- A new controller before any object is built, with the last objects as history. -/
def screens (heap : Heap) : System (OfficeFurnitureController × Latest)
    OfficeFurnitureController.Call :=
  (controller heap 0).recording (fun _ => none) latestObject

instance screens.decidableEnabled (heap : Heap) (u : OfficeFurnitureController × Latest)
    (call : OfficeFurnitureController.Call) : Decidable ((screens heap).Enabled u call) :=
  inferInstanceAs (Decidable ((controller heap 0).Enabled u.1 call))

/-- The tasks of the objects in a list. -/
def OfficeFurnitureController.tasks (c : OfficeFurnitureController) (list : List Ref) :
    List DocId :=
  list.map fun furniture => (c.heap furniture).id

/-- Cart and favourites have at most one entry for each task, and a task is a favourite exactly
if the object last built or toggled for it is marked so. -/
structure OneEntry (u : OfficeFurnitureController × Latest) : Prop where
  cart : (u.1.tasks u.1.cartFurniture).Nodup
  favorites : (u.1.tasks u.1.favoriteFurnitureList).Nodup
  current : ∀ task, task ∈ u.1.tasks u.1.favoriteFurnitureList ↔
    ∃ furniture ∈ u.2 task, (u.1.heap furniture).isFavorite = true

/-- No object is built for a favourite, and none is added to the cart or marked while there is
another one for its task. -/
def OfficeFurnitureController.Call.Single (c : OfficeFurnitureController) :
    OfficeFurnitureController.Call → Prop
  | .build d => d.id ∉ c.tasks c.favoriteFurnitureList
  | .addToCart furniture => 0 < (c.heap furniture).quantity →
      ∀ other ∈ c.cartFurniture, (c.heap other).id = (c.heap furniture).id → other = furniture
  | .isFavoriteFurniture furniture => (c.heap furniture).isFavorite = false →
      (c.heap furniture).id ∉ c.tasks c.favoriteFurnitureList
  | _ => True

instance OfficeFurnitureController.Call.decidableSingle (c : OfficeFurnitureController)
    (call : OfficeFurnitureController.Call) : Decidable (call.Single c) := by
  apply OfficeFurnitureController.Call.casesOn (motive := fun call => Decidable (call.Single c))
    call <;> intros <;> unfold OfficeFurnitureController.Call.Single <;> infer_instance

/-! ## What a call does to the objects -/

section Objects

variable {c : OfficeFurnitureController} (call : OfficeFurnitureController.Call)
  {furniture : Ref}

/-- Of an object that exists, a call changes the quantity, and the mark if it toggles it. -/
theorem object_perform (h : furniture < c.next) : ∃ quantity,
    (c.perform call).heap furniture = { c.heap furniture with
      quantity
      isFavorite := if call = .isFavoriteFurniture furniture then !(c.heap furniture).isFavorite
        else (c.heap furniture).isFavorite } := by
  have hset : ∀ other quantity, ∃ quantity', c.heap.setQuantity other quantity furniture =
      { c.heap furniture with quantity := quantity' } := by
    intro other quantity
    by_cases hself : furniture = other
    · subst hself
      exact ⟨quantity, Heap.setQuantity_self ..⟩
    · exact ⟨(c.heap furniture).quantity, Heap.setQuantity_of_ne _ _ hself⟩
  cases call with
  | build d =>
      have hne : furniture ≠ c.next := Nat.ne_of_lt h
      exact ⟨(c.heap furniture).quantity, Function.update_of_ne hne _ _⟩
  | addToCart other =>
      refine ⟨(c.heap furniture).quantity, ?_⟩
      simp only [OfficeFurnitureController.perform, OfficeFurnitureController.addToCart]
      split <;> rfl
  | increaseItem other => exact hset other _
  | decreaseItem other =>
      obtain ⟨quantity, hquantity⟩ := hset other (c.heap.decreased other).1
      refine ⟨quantity, ?_⟩
      calc (c.decreaseItem other).heap furniture
          = (c.heap.decreased other).2.setQuantity other (c.heap.decreased other).1 furniture := rfl
        _ = { c.heap furniture with quantity } := by rw [decreased_snd_setQuantity, hquantity]
  | clearCart => exact ⟨_, rfl⟩
  | isFavoriteFurniture other =>
      refine ⟨(c.heap furniture).quantity, ?_⟩
      by_cases hself : other = furniture
      · subst hself
        rw [if_pos rfl]
        exact Function.update_self ..
      · rw [if_neg (by simpa using hself)]
        exact Function.update_of_ne (Ne.symm hself) _ _

theorem id_perform (h : furniture < c.next) :
    ((c.perform call).heap furniture).id = (c.heap furniture).id := by
  obtain ⟨quantity, hobject⟩ := object_perform call h
  rw [hobject]

theorem isFavorite_perform (h : furniture < c.next) :
    ((c.perform call).heap furniture).isFavorite =
      if call = .isFavoriteFurniture furniture then !(c.heap furniture).isFavorite
      else (c.heap furniture).isFavorite := by
  obtain ⟨quantity, hobject⟩ := object_perform call h
  rw [hobject]

theorem tasks_perform {list : List Ref} (h : ∀ furniture ∈ list, furniture < c.next) :
    (c.perform call).tasks list = c.tasks list :=
  List.map_congr_left fun furniture hmem => id_perform call (h furniture hmem)

/-- Only a build makes a new object. -/
theorem next_perform (h : ∀ d, call ≠ .build d) : (c.perform call).next = c.next := by
  cases call with
  | build d => exact absurd rfl (h d)
  | addToCart other =>
      simp only [OfficeFurnitureController.perform, OfficeFurnitureController.addToCart]
      split <;> rfl
  | _ => rfl

/-- Only a toggle changes the favourites. -/
theorem favorites_perform (h : ∀ other, call ≠ .isFavoriteFurniture other) :
    (c.perform call).favoriteFurnitureList = c.favoriteFurnitureList := by
  cases call with
  | addToCart other =>
      simp only [OfficeFurnitureController.perform, OfficeFurnitureController.addToCart]
      split <;> rfl
  | isFavoriteFurniture other => exact absurd rfl (h other)
  | _ => rfl

/-- Only an addition puts something into the cart. -/
theorem cart_perform (h : ∀ other, call ≠ .addToCart other) :
    (c.perform call).cartFurniture.Sublist c.cartFurniture := by
  cases call with
  | addToCart other => exact absurd rfl (h other)
  | decreaseItem other =>
      simp only [OfficeFurnitureController.perform, OfficeFurnitureController.decreaseItem]
      split
      · exact List.filter_sublist
      · exact .refl _
  | clearCart => exact List.nil_sublist _
  | _ => exact .refl _

theorem mem_addToCart {item : Ref} (h : item ∈ (c.addToCart furniture).cartFurniture) :
    item ∈ c.cartFurniture ∨ item = furniture := by
  by_cases hquantity : 0 < (c.heap furniture).quantity
  · rw [addToCart_cart hquantity] at h
    simpa using (distinctBy_sublist _ _).subset h
  · have hsame : c.addToCart furniture = c := if_neg hquantity
    rw [hsame] at h
    exact .inl h

/-- Into a cart without repetitions an object is put once. -/
theorem cart_addToCart (hnodup : c.cartFurniture.Nodup) :
    (c.addToCart furniture).cartFurniture =
      if 0 < (c.heap furniture).quantity ∧ furniture ∉ c.cartFurniture then
        c.cartFurniture ++ [furniture]
      else c.cartFurniture := by
  by_cases hquantity : 0 < (c.heap furniture).quantity
  · have hdistinct : distinctBy (fun item => item) c.cartFurniture = c.cartFurniture :=
      distinctBy_of_pairwise _ (hnodup.imp fun hne => by simpa using hne)
    have hany : (c.cartFurniture.any fun x => x == furniture) = true ↔
        furniture ∈ c.cartFurniture := by
      simp
    rw [addToCart_cart hquantity, distinctBy_snoc, hdistinct]
    by_cases hmem : furniture ∈ c.cartFurniture
    · rw [if_pos (hany.mpr hmem), if_neg (by simp [hmem])]
    · rw [if_neg (by simpa using hmem), if_pos ⟨hquantity, hmem⟩]
  · rw [if_neg (by simp [hquantity])]
    exact congrArg _ (if_neg hquantity)

/-- A marked object leaves the favourites, another one joins them. -/
theorem favorites_toggle : (c.isFavoriteFurniture furniture).favoriteFurnitureList =
    if (c.heap furniture).isFavorite then
      c.favoriteFurnitureList.filter fun element => element ≠ furniture
    else c.favoriteFurnitureList ++ [furniture] := by
  unfold OfficeFurnitureController.isFavoriteFurniture
  cases (c.heap furniture).isFavorite <;> rfl

end Objects

/-! ## The objects of a run -/

/-- What the lists and the history contain exists, the favourites are the marked objects, and
the last object of a task is one of its own. -/
structure Existing (u : OfficeFurnitureController × Latest) : Prop where
  cart : ∀ furniture ∈ u.1.cartFurniture, furniture < u.1.next
  favorites : ∀ furniture ∈ u.1.favoriteFurnitureList, furniture < u.1.next
  marked : ∀ furniture, furniture < u.1.next →
    (furniture ∈ u.1.favoriteFurnitureList ↔ (u.1.heap furniture).isFavorite = true)
  latest : ∀ task, ∀ furniture ∈ u.2 task,
    furniture < u.1.next ∧ (u.1.heap furniture).id = task

section Steps

variable {heap : Heap} {u : OfficeFurnitureController × Latest}

theorem mem_update_iff {latest : Latest} {task other : DocId} {r furniture : Ref} :
    r ∈ Function.update latest task (some furniture) other ↔
      if other = task then r = furniture else r ∈ latest other := by
  by_cases htask : other = task
  · subst htask
    simp [eq_comm]
  · simp [htask]

theorem tasks_append_nodup_iff {c : OfficeFurnitureController} {list : List Ref}
    {furniture : Ref} : (c.tasks (list ++ [furniture])).Nodup ↔
      (c.tasks list).Nodup ∧ (c.heap furniture).id ∉ c.tasks list := by
  have happend : c.tasks (list ++ [furniture]) = c.tasks list ++ [(c.heap furniture).id] :=
    List.map_append ..
  rw [happend, List.nodup_append]
  simp only [List.nodup_singleton, List.mem_singleton, true_and, forall_eq]
  refine and_congr_right fun _ => ?_
  exact ⟨fun hne hmem => hne _ hmem rfl, fun hnone _ hmem heq => hnone (heq ▸ hmem)⟩

/-- The cases in which no object is built or toggled. -/
theorem Existing.of_same (h : Existing u) (call : OfficeFurnitureController.Call)
    (hbuild : ∀ d, call ≠ .build d) (htoggle : ∀ other, call ≠ .isFavoriteFurniture other)
    (hcart : ∀ furniture ∈ (u.1.perform call).cartFurniture, furniture < u.1.next) :
    Existing (u.1.perform call, u.2) := by
  have hfavorites : (u.1.perform call).favoriteFurnitureList = u.1.favoriteFurnitureList :=
    favorites_perform call htoggle
  have hnext : (u.1.perform call).next = u.1.next := next_perform call hbuild
  constructor
  · exact fun r hr => hnext ▸ hcart r hr
  · exact fun r hr => hnext ▸ h.favorites r (hfavorites ▸ hr)
  · intro r hr
    have hexists : r < u.1.next := hnext ▸ hr
    rw [hfavorites, isFavorite_perform call hexists, if_neg (htoggle r), h.marked r hexists]
  · intro task r hr
    obtain ⟨hexists, hid⟩ := h.latest task r hr
    exact ⟨hnext ▸ hexists, by rw [id_perform call hexists, hid]⟩

theorem Existing.build (h : Existing u) (d : Doc Task) :
    Existing (u.1.build d, latestObject u.2 u.1 (.build d)) := by
  have hnew : (u.1.build d).heap u.1.next = .ofDoc d := Function.update_self ..
  have hold : ∀ r, r < u.1.next → (u.1.build d).heap r = u.1.heap r :=
    fun r hr => Function.update_of_ne (Nat.ne_of_lt hr) _ _
  constructor
  · exact fun r hr => Nat.lt_succ_of_lt (h.cart r hr)
  · exact fun r hr => Nat.lt_succ_of_lt (h.favorites r hr)
  · intro r hr
    rcases Nat.lt_succ_iff_lt_or_eq.mp hr with hexists | rfl
    · rw [hold r hexists]
      exact h.marked r hexists
    · rw [hnew]
      refine iff_of_false (fun hmem => ?_) (by simp [Furniture.ofDoc])
      exact Nat.lt_irrefl _ (h.favorites _ hmem)
  · intro task r hr
    have hlatest := mem_update_iff.mp hr
    split at hlatest
    · rename_i htask
      subst hlatest
      exact ⟨Nat.lt_succ_self _, by rw [hnew, htask]; rfl⟩
    · obtain ⟨hexists, hid⟩ := h.latest task r hlatest
      exact ⟨Nat.lt_succ_of_lt hexists, by rw [hold r hexists, hid]⟩

theorem Existing.lt_of_mem_toggle (h : Existing u) {furniture r : Ref}
    (hexists : furniture < u.1.next)
    (hr : r ∈ (u.1.isFavoriteFurniture furniture).favoriteFurnitureList) : r < u.1.next := by
  rw [favorites_toggle] at hr
  split at hr
  · exact h.favorites r (List.mem_of_mem_filter hr)
  · rcases List.mem_append.mp hr with hr | hr
    · exact h.favorites r hr
    · rw [List.mem_singleton.mp hr]
      exact hexists

theorem Existing.toggle (h : Existing u) {furniture : Ref} (hexists : furniture < u.1.next) :
    Existing (u.1.isFavoriteFurniture furniture,
      latestObject u.2 u.1 (.isFavoriteFurniture furniture)) := by
  have hmark : ∀ r, r < u.1.next → ((u.1.isFavoriteFurniture furniture).heap r).isFavorite =
      if furniture = r then !(u.1.heap r).isFavorite else (u.1.heap r).isFavorite := by
    intro r hr
    calc ((u.1.isFavoriteFurniture furniture).heap r).isFavorite
        = if OfficeFurnitureController.Call.isFavoriteFurniture furniture =
              .isFavoriteFurniture r then !(u.1.heap r).isFavorite
            else (u.1.heap r).isFavorite := isFavorite_perform (.isFavoriteFurniture furniture) hr
      _ = if furniture = r then !(u.1.heap r).isFavorite else (u.1.heap r).isFavorite := by simp
  have hid : ∀ r, r < u.1.next →
      ((u.1.isFavoriteFurniture furniture).heap r).id = (u.1.heap r).id :=
    fun r hr => id_perform (.isFavoriteFurniture furniture) hr
  constructor
  · exact h.cart
  · exact fun r hr => h.lt_of_mem_toggle hexists hr
  · intro r hr
    rw [favorites_toggle, hmark r hr]
    by_cases hself : furniture = r
    · subst hself
      by_cases hmarked : (u.1.heap furniture).isFavorite = true
      · simp [hmarked]
      · simp [hmarked]
    · rw [if_neg hself, ← h.marked r hr]
      split
      · simp [Ne.symm hself]
      · simp [Ne.symm hself]
  · intro task r hr
    have hlatest := mem_update_iff.mp hr
    split at hlatest
    · rename_i htask
      subst hlatest
      exact ⟨hexists, (hid _ hexists).trans htask.symm⟩
    · obtain ⟨hbefore, htasks⟩ := h.latest task r hlatest
      exact ⟨hbefore, by rw [hid r hbefore, htasks]⟩

theorem Existing.perform (h : Existing u) {call : OfficeFurnitureController.Call}
    (henabled : (screens heap).Enabled u call) : Existing ((screens heap).perform u call) := by
  have hshrinks : ∀ call, (∀ other, call ≠ .addToCart other) →
      ∀ r ∈ (u.1.perform call).cartFurniture, r < u.1.next :=
    fun call hcall r hr => h.cart r ((cart_perform call hcall).subset hr)
  cases call with
  | build d => exact h.build d
  | isFavoriteFurniture furniture => exact h.toggle (henabled furniture rfl)
  | addToCart furniture =>
      refine h.of_same (.addToCart furniture) (by simp) (by simp) fun r hr => ?_
      rcases mem_addToCart hr with hr | rfl
      · exact h.cart r hr
      · exact henabled r rfl
  | increaseItem furniture =>
      exact h.of_same (.increaseItem furniture) (by simp) (by simp) (hshrinks _ (by simp))
  | decreaseItem furniture =>
      exact h.of_same (.decreaseItem furniture) (by simp) (by simp) (hshrinks _ (by simp))
  | clearCart => exact h.of_same .clearCart (by simp) (by simp) (hshrinks _ (by simp))

/-- A call that does not toggle the last object of a task leaves its mark. -/
theorem OneEntry.current_of_kept (hone : OneEntry u) (h : Existing u)
    (call : OfficeFurnitureController.Call) {task : DocId}
    (hkept : ∀ r ∈ u.2 task, call ≠ .isFavoriteFurniture r) :
    task ∈ u.1.tasks u.1.favoriteFurnitureList ↔
      ∃ r ∈ u.2 task, ((u.1.perform call).heap r).isFavorite = true := by
  rw [hone.current task]
  refine exists_congr fun r => and_congr_right fun hr => ?_
  rw [isFavorite_perform call (h.latest task r hr).1, if_neg (hkept r hr)]

/-- If no object is built or toggled, it is a matter of the cart. -/
theorem OneEntry.of_same_iff (hone : OneEntry u) (h : Existing u)
    (call : OfficeFurnitureController.Call)
    (htoggle : ∀ other, call ≠ .isFavoriteFurniture other) :
    OneEntry (u.1.perform call, u.2) ↔
      ((u.1.perform call).tasks (u.1.perform call).cartFurniture).Nodup := by
  have hfavorites : (u.1.perform call).tasks (u.1.perform call).favoriteFurnitureList =
      u.1.tasks u.1.favoriteFurnitureList := by
    rw [favorites_perform call htoggle, tasks_perform call h.favorites]
  refine ⟨OneEntry.cart, fun hcart => ⟨hcart, ?_, fun task => ?_⟩⟩
  · rw [hfavorites]
    exact hone.favorites
  · rw [hfavorites]
    exact hone.current_of_kept h call fun r _ => htoggle r

/-- A cart that shrinks has no more entries. -/
theorem OneEntry.of_shrinks (hone : OneEntry u) (h : Existing u)
    (call : OfficeFurnitureController.Call) (hadd : ∀ other, call ≠ .addToCart other)
    (htoggle : ∀ other, call ≠ .isFavoriteFurniture other) :
    OneEntry (u.1.perform call, u.2) := by
  have hsublist := cart_perform (c := u.1) call hadd
  refine (hone.of_same_iff h call htoggle).mpr ?_
  rw [tasks_perform call fun r hr => h.cart r (hsublist.subset hr)]
  exact hone.cart.sublist (hsublist.map _)

theorem OneEntry.addToCart_iff (hone : OneEntry u) (h : Existing u) {furniture : Ref}
    (hexists : furniture < u.1.next) :
    OfficeFurnitureController.Call.Single u.1 (.addToCart furniture) ↔
      OneEntry (u.1.addToCart furniture, u.2) := by
  have hnodup : u.1.cartFurniture.Nodup := List.Nodup.of_map _ hone.cart
  have hsame : (u.1.addToCart furniture).tasks (u.1.addToCart furniture).cartFurniture =
      u.1.tasks (u.1.addToCart furniture).cartFurniture := by
    refine tasks_perform (.addToCart furniture) fun r hr => ?_
    rcases mem_addToCart hr with hr | rfl
    · exact h.cart r hr
    · exact hexists
  refine Iff.trans ?_ (hone.of_same_iff h (.addToCart furniture) (by simp)).symm
  show _ ↔ ((u.1.addToCart furniture).tasks (u.1.addToCart furniture).cartFurniture).Nodup
  rw [hsame, cart_addToCart hnodup]
  unfold OfficeFurnitureController.Call.Single
  by_cases hquantity : 0 < (u.1.heap furniture).quantity
  · by_cases hmem : furniture ∈ u.1.cartFurniture
    · rw [if_neg (by simp [hmem])]
      refine iff_of_true (fun _ other hother hid => ?_) hone.cart
      exact List.inj_on_of_nodup_map hone.cart hother hmem hid
    · rw [if_pos ⟨hquantity, hmem⟩, tasks_append_nodup_iff, and_iff_right hone.cart]
      constructor
      · intro hsingle hentry
        obtain ⟨other, hother, hid⟩ := List.mem_map.mp hentry
        exact hmem (hsingle hquantity other hother hid ▸ hother)
      · exact fun hnone _ other hother hid =>
          absurd (List.mem_map.mpr ⟨other, hother, hid⟩) hnone
  · rw [if_neg (by simp [hquantity])]
    exact iff_of_true (fun h => absurd h hquantity) hone.cart

theorem OneEntry.build_iff (hone : OneEntry u) (h : Existing u) (d : Doc Task) :
    OfficeFurnitureController.Call.Single u.1 (.build d) ↔
      OneEntry (u.1.build d, latestObject u.2 u.1 (.build d)) := by
  have hcart : (u.1.build d).tasks u.1.cartFurniture = u.1.tasks u.1.cartFurniture :=
    tasks_perform (.build d) h.cart
  have hfavorites : (u.1.build d).tasks u.1.favoriteFurnitureList =
      u.1.tasks u.1.favoriteFurnitureList := tasks_perform (.build d) h.favorites
  have hnew : ((u.1.build d).heap u.1.next).isFavorite = false := by
    simp [OfficeFurnitureController.build, Furniture.ofDoc]
  have hlast : ∀ furniture, furniture ∈ latestObject u.2 u.1 (.build d) d.id ↔
      furniture = u.1.next := by
    intro furniture
    rw [latestObject, mem_update_iff, if_pos rfl]
  constructor
  · intro hnone
    refine ⟨?_, ?_, fun task => ?_⟩
    · show ((u.1.build d).tasks u.1.cartFurniture).Nodup
      rw [hcart]
      exact hone.cart
    · show ((u.1.build d).tasks u.1.favoriteFurnitureList).Nodup
      rw [hfavorites]
      exact hone.favorites
    · show task ∈ (u.1.build d).tasks u.1.favoriteFurnitureList ↔ _
      rw [hfavorites]
      by_cases htask : task = d.id
      · subst htask
        refine iff_of_false hnone ?_
        rintro ⟨furniture, hfurniture, hmarked⟩
        rw [(hlast furniture).mp hfurniture, hnew] at hmarked
        cases hmarked
      · have hlatest : latestObject u.2 u.1 (.build d) task = u.2 task :=
          Function.update_of_ne htask ..
        dsimp only
        rw [hlatest]
        exact hone.current_of_kept h (.build d) (by simp)
  · intro hbuilt hentry
    rw [← hfavorites] at hentry
    obtain ⟨furniture, hfurniture, hmarked⟩ := (hbuilt.current d.id).mp hentry
    rw [(hlast furniture).mp hfurniture, hnew] at hmarked
    cases hmarked

/-- A toggle changes no task: the lists have those that their objects had before. -/
theorem Existing.tasks_toggle (h : Existing u) {furniture : Ref}
    (hexists : furniture < u.1.next) :
    (u.1.isFavoriteFurniture furniture).tasks u.1.cartFurniture = u.1.tasks u.1.cartFurniture ∧
      (u.1.isFavoriteFurniture furniture).tasks
        (u.1.isFavoriteFurniture furniture).favoriteFurnitureList =
      u.1.tasks (if (u.1.heap furniture).isFavorite then
        u.1.favoriteFurnitureList.filter fun element => element ≠ furniture
        else u.1.favoriteFurnitureList ++ [furniture]) := by
  refine ⟨tasks_perform (.isFavoriteFurniture furniture) h.cart, ?_⟩
  rw [← favorites_toggle]
  exact tasks_perform (.isFavoriteFurniture furniture) fun r hr => h.lt_of_mem_toggle hexists hr

/-- A toggle leaves the marks of the other tasks. -/
theorem toggle_current (hone : OneEntry u) (h : Existing u) {furniture : Ref} {task : DocId}
    (htask : task ≠ (u.1.heap furniture).id) :
    task ∈ u.1.tasks u.1.favoriteFurnitureList ↔
      ∃ other ∈ latestObject u.2 u.1 (.isFavoriteFurniture furniture) task,
        ((u.1.isFavoriteFurniture furniture).heap other).isFavorite = true := by
  have hlatest : latestObject u.2 u.1 (.isFavoriteFurniture furniture) task = u.2 task :=
    Function.update_of_ne htask ..
  rw [hlatest]
  refine hone.current_of_kept h (.isFavoriteFurniture furniture) ?_
  rintro other hother ⟨⟩
  exact htask (h.latest task _ hother).2.symm

theorem OneEntry.unmark (hone : OneEntry u) (h : Existing u) {furniture : Ref}
    (hexists : furniture < u.1.next) (hmarked : (u.1.heap furniture).isFavorite = true) :
    OneEntry (u.1.isFavoriteFurniture furniture,
      latestObject u.2 u.1 (.isFavoriteFurniture furniture)) := by
  obtain ⟨hcart, hfavorites⟩ := h.tasks_toggle hexists
  rw [if_pos hmarked] at hfavorites
  have hmem : furniture ∈ u.1.favoriteFurnitureList := (h.marked furniture hexists).mpr hmarked
  refine ⟨?_, ?_, fun task => ?_⟩
  · show ((u.1.isFavoriteFurniture furniture).tasks u.1.cartFurniture).Nodup
    rw [hcart]
    exact hone.cart
  · rw [hfavorites]
    exact hone.favorites.sublist (List.filter_sublist.map _)
  · rw [hfavorites]
    by_cases htask : task = (u.1.heap furniture).id
    · subst htask
      refine iff_of_false (fun hentry => ?_) ?_
      · obtain ⟨other, hother, hid⟩ := List.mem_map.mp hentry
        obtain ⟨hother, hne⟩ := List.mem_filter.mp hother
        have hsame := List.inj_on_of_nodup_map hone.favorites hother hmem hid
        simp [hsame] at hne
      · rintro ⟨other, hother, hfavorite⟩
        rw [latestObject, mem_update_iff, if_pos rfl] at hother
        subst hother
        have hnow := isFavorite_perform (.isFavoriteFurniture other) hexists
        rw [if_pos rfl, hmarked] at hnow
        exact absurd (hfavorite.symm.trans hnow) (by decide)
    · rw [← toggle_current hone h htask]
      constructor
      · exact fun hentry => (List.filter_sublist.map _).subset hentry
      · intro hentry
        obtain ⟨other, hother, rfl⟩ := List.mem_map.mp hentry
        refine List.mem_map.mpr ⟨other, List.mem_filter.mpr ⟨hother, ?_⟩, rfl⟩
        simp only [decide_eq_true_eq]
        rintro rfl
        exact htask rfl

theorem OneEntry.mark_iff (hone : OneEntry u) (h : Existing u) {furniture : Ref}
    (hexists : furniture < u.1.next) (hunmarked : (u.1.heap furniture).isFavorite = false) :
    (u.1.heap furniture).id ∉ u.1.tasks u.1.favoriteFurnitureList ↔
      OneEntry (u.1.isFavoriteFurniture furniture,
        latestObject u.2 u.1 (.isFavoriteFurniture furniture)) := by
  obtain ⟨hcart, hfavorites⟩ := h.tasks_toggle hexists
  rw [if_neg (by simp [hunmarked])] at hfavorites
  constructor
  · intro hnone
    refine ⟨?_, ?_, fun task => ?_⟩
    · show ((u.1.isFavoriteFurniture furniture).tasks u.1.cartFurniture).Nodup
      rw [hcart]
      exact hone.cart
    · rw [hfavorites, tasks_append_nodup_iff]
      exact ⟨hone.favorites, hnone⟩
    · rw [hfavorites]
      have happend : task ∈ u.1.tasks (u.1.favoriteFurnitureList ++ [furniture]) ↔
          task ∈ u.1.tasks u.1.favoriteFurnitureList ∨ task = (u.1.heap furniture).id := by
        simp [OfficeFurnitureController.tasks, or_comm, eq_comm]
      rw [happend]
      by_cases htask : task = (u.1.heap furniture).id
      · subst htask
        refine iff_of_true (.inr rfl) ⟨furniture, ?_, ?_⟩
        · rw [latestObject, mem_update_iff, if_pos rfl]
        · have hnow := isFavorite_perform (.isFavoriteFurniture furniture) hexists
          rw [if_pos rfl, hunmarked] at hnow
          exact hnow
      · rw [or_iff_left htask]
        exact toggle_current hone h htask
  · intro hone'
    have hnodup := hone'.favorites
    rw [hfavorites, tasks_append_nodup_iff] at hnodup
    exact hnodup.2

/-- A call keeps one entry for each task exactly if it meets the condition. -/
theorem OneEntry.step_iff (hone : OneEntry u) (h : Existing u)
    {call : OfficeFurnitureController.Call} (henabled : (screens heap).Enabled u call) :
    call.Single u.1 ↔ OneEntry ((screens heap).perform u call) := by
  cases call with
  | build d => exact hone.build_iff h d
  | addToCart furniture => exact hone.addToCart_iff h (henabled furniture rfl)
  | isFavoriteFurniture furniture =>
      cases hmark : (u.1.heap furniture).isFavorite with
      | true =>
          refine iff_of_true (fun hunmarked => ?_) (hone.unmark h (henabled furniture rfl) hmark)
          rw [hmark] at hunmarked
          cases hunmarked
      | false =>
          have hiff := hone.mark_iff h (henabled furniture rfl) hmark
          exact ⟨fun hsingle => hiff.mp (hsingle hmark), fun hone' _ => hiff.mpr hone'⟩
  | increaseItem furniture =>
      exact iff_of_true trivial (hone.of_shrinks h (.increaseItem furniture) (by simp) (by simp))
  | decreaseItem furniture =>
      exact iff_of_true trivial (hone.of_shrinks h (.decreaseItem furniture) (by simp) (by simp))
  | clearCart => exact iff_of_true trivial (hone.of_shrinks h .clearCart (by simp) (by simp))

end Steps

/-- All along a run cart and favourites have one entry for each task, and the favourites are the
tasks whose last object is marked, exactly if no object is built for a favourite, and none is
added to the cart or marked while there is another one for its task. -/
theorem one_entry_per_task {heap : Heap}
    {trace : List ((OfficeFurnitureController × Latest) × OfficeFurnitureController.Call)}
    {u : OfficeFurnitureController × Latest}
    (run : Run (screens heap) (screens heap).init trace u) :
    (∀ v ∈ visited trace u, OneEntry v) ↔ Meets (fun v call => call.Single v.1) trace := by
  have hempty : OneEntry (screens heap).init :=
    ⟨List.nodup_nil, List.nodup_nil, fun task => by
      simp [screens, System.recording, controller, OfficeFurnitureController.tasks]⟩
  have hexisting : Existing (screens heap).init := by
    constructor <;> simp [screens, System.recording, controller]
  exact run.forall_visited_iff_of_meets (K := fun _ _ => True) (J := Existing)
    (fun _ _ => trivial) hexisting hempty (fun _ _ h henabled _ => h.perform henabled)
    fun _ _ h hone henabled _ => hone.step_iff h henabled

namespace Scenario

def door : Doc Task :=
  ⟨1, ⟨1, text ['D', 'o', 'o', 'r'], text ['H', 'i', 'n', 'g', 'e'], .riyadh, .maintenance⟩⟩

/-- Two tasks; one is put into the cart twice, the other one is marked and unmarked. -/
def oneObjectEach : List OfficeFurnitureController.Call :=
  [.build leak, .build door, .addToCart 0, .addToCart 0, .isFavoriteFurniture 1,
    .isFavoriteFurniture 1, .isFavoriteFurniture 0]

/-- The list is drawn again after the task has been marked. -/
def drawnAgain : List OfficeFurnitureController.Call :=
  [.build leak, .isFavoriteFurniture 0, .addToCart 0, .build leak, .addToCart 1,
    .isFavoriteFurniture 1]

end Scenario

theorem one_entry_oneObjectEach :
    ((screens fun _ => .ofDoc Scenario.leak).final (screens fun _ => .ofDoc Scenario.leak).init
      Scenario.oneObjectEach).1.cartFurniture = [0] ∧
    ∀ v ∈ visited ((screens fun _ => .ofDoc Scenario.leak).steps
        (screens fun _ => .ofDoc Scenario.leak).init Scenario.oneObjectEach)
        ((screens fun _ => .ofDoc Scenario.leak).final
          (screens fun _ => .ofDoc Scenario.leak).init Scenario.oneObjectEach), OneEntry v :=
  ⟨by decide, (one_entry_per_task ((screens fun _ => .ofDoc Scenario.leak).run_steps _
    Scenario.oneObjectEach (by decide))).mpr (by decide)⟩

/-- Two entries for one task are reachable in both lists. -/
theorem two_entries_reachable : ¬ ∀ heap u, Reachable (screens heap) u → OneEntry u := by
  intro h
  have hone := h (fun _ => .ofDoc Scenario.leak) _
    ⟨_, System.run_steps _ _ Scenario.drawnAgain (by decide)⟩
  have hfavorites := hone.favorites
  revert hfavorites
  decide

end Oun
