import Mathlib.Data.List.Basic
import Mathlib.Data.List.Nodup

/-! # Collections of documents

A collection holds documents under generated ids. `add` gives the new document an id
that was never used before, so a late `delete` cannot reach a document it was not
meant for; deleting an id that is not there changes nothing. -/

namespace Firestore

abbrev DocId := ℕ

structure Doc (α : Type*) where
  id : DocId
  data : α
  deriving DecidableEq, Repr

/-- The documents of a collection and the next id to be generated. -/
structure Collection (α : Type*) where
  docs : List (Doc α)
  next : DocId
  nodup : (docs.map Doc.id).Nodup
  fresh : ∀ d ∈ docs, d.id < next

namespace Collection

variable {α β : Type*}

def empty : Collection α := ⟨[], 0, by simp, by simp⟩

def add (c : Collection α) (a : α) : Collection α where
  docs := c.docs ++ [⟨c.next, a⟩]
  next := c.next + 1
  nodup := by
    have hnew : ∀ d ∈ c.docs, ¬ d.id = c.next := fun d hd => Nat.ne_of_lt (c.fresh d hd)
    simpa [List.nodup_append, c.nodup] using hnew
  fresh := by
    intro d hd
    rcases List.mem_append.mp hd with hd | hd
    · exact Nat.lt_succ_of_lt (c.fresh d hd)
    · rw [List.mem_singleton.mp hd]
      exact Nat.lt_succ_self _

def delete (c : Collection α) (id : DocId) : Collection α where
  docs := c.docs.filter (fun d => d.id ≠ id)
  next := c.next
  nodup := c.nodup.sublist (List.filter_sublist.map Doc.id)
  fresh := fun d hd => c.fresh d (List.mem_filter.mp hd).1

/-- `where(field, isEqualTo: value)`: the matching documents in some order; what a query
returns is a permutation of them. -/
def whereEqualTo [DecidableEq β] (c : Collection α) (field : α → β) (value : β) :
    List (Doc α) :=
  c.docs.filter (fun d => field d.data = value)

def count (c : Collection α) (p : α → Bool) : ℕ :=
  c.docs.countP (fun d => p d.data)

/-! ## Membership -/

@[simp] theorem docs_empty : (empty : Collection α).docs = [] := rfl

@[simp] theorem next_delete (c : Collection α) (id : DocId) : (c.delete id).next = c.next := rfl

@[simp] theorem next_add (c : Collection α) (a : α) : (c.add a).next = c.next + 1 := rfl

@[simp] theorem mem_add (c : Collection α) (a : α) (d : Doc α) :
    d ∈ (c.add a).docs ↔ d ∈ c.docs ∨ d = ⟨c.next, a⟩ := by
  simp [add]

@[simp] theorem mem_delete (c : Collection α) (id : DocId) (d : Doc α) :
    d ∈ (c.delete id).docs ↔ d ∈ c.docs ∧ d.id ≠ id := by
  simp [delete]

@[simp] theorem mem_whereEqualTo [DecidableEq β] (c : Collection α) (field : α → β)
    (value : β) (d : Doc α) :
    d ∈ c.whereEqualTo field value ↔ d ∈ c.docs ∧ field d.data = value := by
  simp [whereEqualTo]

theorem whereEqualTo_add [DecidableEq β] (c : Collection α) (a : α) (field : α → β) (value : β) :
    (c.add a).whereEqualTo field value =
      c.whereEqualTo field value ++ if field a = value then [⟨c.next, a⟩] else [] := by
  by_cases h : field a = value <;> simp [whereEqualTo, add, List.filter_append, h]

theorem nodup_docs (c : Collection α) : c.docs.Nodup :=
  c.nodup.of_map

theorem nodup_whereEqualTo [DecidableEq β] (c : Collection α) (field : α → β) (value : β) :
    (c.whereEqualTo field value).Nodup :=
  c.nodup_docs.filter _

/-- Documents of one collection with the same id are the same document. -/
theorem eq_of_id_eq (c : Collection α) {d d' : Doc α} (hd : d ∈ c.docs) (hd' : d' ∈ c.docs)
    (hid : d.id = d'.id) : d = d' :=
  List.inj_on_of_nodup_map c.nodup hd hd' hid

theorem ids_nodup_of_perm_whereEqualTo [DecidableEq β] (c : Collection α) (field : α → β)
    (value : β) {documents : List (Doc α)}
    (h : documents.Perm (c.whereEqualTo field value)) : (documents.map Doc.id).Nodup :=
  (h.map Doc.id).nodup_iff.mpr (c.nodup.sublist (List.filter_sublist.map Doc.id))

/-! ## Counting -/

@[simp] theorem count_empty (p : α → Bool) : (empty : Collection α).count p = 0 := rfl

@[simp] theorem count_add (c : Collection α) (a : α) (p : α → Bool) :
    (c.add a).count p = c.count p + if p a then 1 else 0 := by
  simp [count, add, List.countP_append, List.countP_singleton]

theorem delete_of_not_mem (c : Collection α) {id : DocId} (h : ∀ d ∈ c.docs, d.id ≠ id) :
    c.delete id = c := by
  have hdocs : c.docs.filter (fun d => d.id ≠ id) = c.docs :=
    List.filter_eq_self.mpr fun d hd => by simpa using h d hd
  cases c
  simp only [delete] at hdocs ⊢
  congr

theorem count_delete_le (c : Collection α) (id : DocId) (p : α → Bool) :
    (c.delete id).count p ≤ c.count p := by
  simp only [count, delete]
  exact List.filter_sublist.countP_le

theorem countP_whereEqualTo [DecidableEq β] (c : Collection α) (field : α → β) (value : β)
    (p : α → Bool) :
    (c.whereEqualTo field value).countP (fun d => p d.data) =
      c.count (fun a => p a && decide (field a = value)) := by
  simp [whereEqualTo, count, List.countP_filter]

theorem count_pos (c : Collection α) (p : α → Bool) :
    0 < c.count p ↔ ∃ d ∈ c.docs, p d.data = true := by
  simp [count, List.countP_pos_iff]

end Collection

end Firestore
