import Mathlib.Data.Multiset.Filter
import Oun.Library.Collection

/-! # Collections up to generated ids

Two runs from one state may name the documents that they create differently. The view of
a collection since a base keeps the ids generated before and forgets the later ones. -/

namespace Firestore

namespace Collection

variable {α β : Type*}

def tag (base : DocId) (d : Doc α) : Option DocId × α :=
  (if d.id < base then some d.id else none, d.data)

def view (c : Collection α) (base : DocId) : Multiset (Option DocId × α) :=
  ↑(c.docs.map (tag base))

theorem view_add (c : Collection α) {base : DocId} (h : base ≤ c.next) (a : α) :
    (c.add a).view base = c.view base + {(none, a)} := by
  simp only [view, add, List.map_append, List.map_singleton, tag, Nat.not_lt.mpr h, ite_false,
    ← Multiset.coe_add, Multiset.coe_singleton]

/-- A delete of an old id takes its document out of the view. -/
theorem view_delete [DecidableEq α] (c : Collection α) {base id : DocId} (h : id < base) :
    (c.delete id).view base = (c.view base).filter (fun x => x.1 ≠ some id) := by
  have htag : ∀ d : Doc α, (tag base d).1 = some id ↔ d.id = id := by
    intro d
    simp only [tag]
    split
    · simp
    · rename_i hnew
      simp only [reduceCtorEq, false_iff]
      rintro rfl
      exact hnew h
  simp only [view, delete, Multiset.filter_coe, List.filter_map]
  congr 2
  refine List.filter_congr fun d _ => ?_
  simp [htag]

theorem mem_view_old {c : Collection α} {base : DocId} {d : Doc α} (hd : d ∈ c.docs)
    (h : d.id < base) : (some d.id, d.data) ∈ c.view base := by
  refine List.mem_map.mpr ⟨d, hd, ?_⟩
  simp [tag, h]

/-- What the view shows under an old id is in the collection. -/
theorem mem_docs_of_view {c : Collection α} {base id : DocId} {a : α}
    (h : (some id, a) ∈ c.view base) : ⟨id, a⟩ ∈ c.docs := by
  obtain ⟨d, hd, htag⟩ := List.mem_map.mp (Multiset.mem_coe.mp h)
  obtain ⟨hid, rfl⟩ := Prod.mk.inj htag
  split at hid
  · obtain rfl := Option.some.inj hid
    exact hd
  · simp at hid

/-! ## Queries that a write does not concern -/

theorem whereEqualTo_add_of_ne [DecidableEq β] (c : Collection α) {a : α} {field : α → β}
    {value : β} (h : field a ≠ value) :
    (c.add a).whereEqualTo field value = c.whereEqualTo field value := by
  simp [whereEqualTo_add, h]

theorem whereEqualTo_delete_of_ne [DecidableEq β] (c : Collection α) {id : DocId} {field : α → β}
    {value : β} (h : ∀ d ∈ c.docs, d.id = id → field d.data ≠ value) :
    (c.delete id).whereEqualTo field value = c.whereEqualTo field value := by
  simp only [whereEqualTo, delete, List.filter_filter]
  refine List.filter_congr fun d hd => ?_
  by_cases hid : d.id = id
  · simp [h d hd hid]
  · simp [hid]

end Collection

end Firestore
