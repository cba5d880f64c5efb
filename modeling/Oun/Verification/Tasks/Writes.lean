import Oun.Library.UpToIds
import Oun.Verification.Offers.Ledger

/-! # The writes of one task

Where the writes of several operations lead, whatever order they take effect in, and
which documents a write of one task leaves alone. -/

namespace Oun

open Firestore Regex

/-- The write creates or deletes documents of the task only. What it deletes has an id
generated before `s`. -/
def Write.On (s : Store) (t : DocId) : Write → Prop
  | .addOffer o => o.task = t
  | .deleteOffer id => id < s.offers.next ∧ ∀ d ∈ s.offers.docs, d.id = id → d.data.task = t
  | .addNotif n => n.task = t
  | .addViolation v => v.taskId = t
  | _ => False

/-- The documents of the task are the same ones. -/
structure SameOnTask (t : DocId) (s s' : Store) : Prop where
  offers : s'.offers.whereEqualTo Offer.task t = s.offers.whereEqualTo Offer.task t
  notifs : s'.notifs.whereEqualTo Notif.task t = s.notifs.whereEqualTo Notif.task t
  violations : s'.violations.whereEqualTo Violation.taskId t =
    s.violations.whereEqualTo Violation.taskId t

/-- The stores agree up to the names of the documents created since `s`. -/
structure SameUpToIds (s s₁ s₂ : Store) : Prop where
  tasks : s₁.tasks = s₂.tasks
  rate : s₁.rate = s₂.rate
  users : s₁.users = s₂.users
  offers : s₁.offers.view s.offers.next = s₂.offers.view s.offers.next
  notifs : s₁.notifs.view s.notifs.next = s₂.notifs.view s.notifs.next
  violations : s₁.violations.view s.violations.next = s₂.violations.view s.violations.next

theorem SameUpToIds.refl (s s' : Store) : SameUpToIds s s' s' :=
  ⟨rfl, rfl, rfl, rfl, rfl, rfl⟩

theorem SameUpToIds.symm {s s₁ s₂ : Store} (h : SameUpToIds s s₁ s₂) : SameUpToIds s s₂ s₁ :=
  ⟨h.tasks.symm, h.rate.symm, h.users.symm, h.offers.symm, h.notifs.symm, h.violations.symm⟩

/-- The documents of a kind that the writes create, without their names. -/
def created {α : Type*} (kind : Write → Option α) (writes : Multiset Write) :
    Multiset (Option DocId × α) :=
  (writes.filterMap kind).map fun a => (none, a)

/-- `s'` is `s` after the writes, up to the names of the documents created. -/
structure Reached (s : Store) (writes : Multiset Write) (s' : Store) : Prop where
  tasks : s'.tasks = s.tasks
  rate : s'.rate = s.rate
  users : s'.users = s.users
  offers : s'.offers.view s.offers.next =
    (s.offers.view s.offers.next).filter (fun x => ∀ id ∈ x.1, Write.deleteOffer id ∉ writes) +
      created Write.offer? writes
  notifs : s'.notifs.view s.notifs.next =
    s.notifs.view s.notifs.next + created Write.notif? writes
  violations : s'.violations.view s.violations.next =
    s.violations.view s.violations.next + created Write.violation? writes
  next : s.offers.next ≤ s'.offers.next ∧ s.notifs.next ≤ s'.notifs.next ∧
    s.violations.next ≤ s'.violations.next

theorem created_cons_some {α : Type*} (kind : Write → Option α) {w : Write} {a : α}
    (h : kind w = some a) (writes : Multiset Write) :
    created kind (w ::ₘ writes) = created kind writes + {(none, a)} := by
  rw [created, Multiset.filterMap_cons_some kind w writes h, Multiset.map_cons,
    ← Multiset.singleton_add, Multiset.add_comm]
  rfl

theorem created_cons_none {α : Type*} {kind : Write → Option α} {w : Write} (h : kind w = none)
    (writes : Multiset Write) : created kind (w ::ₘ writes) = created kind writes := by
  rw [created, Multiset.filterMap_cons_none w writes h]
  rfl

theorem Reached.refl (s : Store) : Reached s 0 s := by
  constructor <;> simp [created]

/-- The same writes lead to the same store, up to names. -/
theorem Reached.sameUpToIds {s s₁ s₂ : Store} {writes : Multiset Write}
    (h₁ : Reached s writes s₁) (h₂ : Reached s writes s₂) : SameUpToIds s s₁ s₂ where
  tasks := h₁.tasks.trans h₂.tasks.symm
  rate := h₁.rate.trans h₂.rate.symm
  users := h₁.users.trans h₂.users.symm
  offers := h₁.offers.trans h₂.offers.symm
  notifs := h₁.notifs.trans h₂.notifs.symm
  violations := h₁.violations.trans h₂.violations.symm

/-- One more write on a task. -/
theorem Reached.write {s s' : Store} {writes : Multiset Write} (h : Reached s writes s')
    {t : DocId} {w : Write} (hon : w.On s t) : Reached s (w ::ₘ writes) (w.apply s') := by
  obtain ⟨htasks, hrate, husers, hoffers, hnotifs, hviolations, hnext⟩ := h
  cases w with
  | addOffer o =>
      refine ⟨htasks, hrate, husers, ?_, hnotifs.trans ?_, hviolations.trans ?_,
        Nat.le_succ_of_le hnext.1, hnext.2⟩
      · rw [created_cons_some Write.offer? rfl, ← Multiset.add_assoc]
        refine (s'.offers.view_add hnext.1 o).trans ?_
        rw [hoffers]
        simp
      · rw [created_cons_none rfl]
      · rw [created_cons_none rfl]
  | deleteOffer id =>
      refine ⟨htasks, hrate, husers, ?_, hnotifs.trans ?_, hviolations.trans ?_, hnext⟩
      · rw [created_cons_none rfl]
        refine (s'.offers.view_delete hon.1).trans ?_
        rw [hoffers, Multiset.filter_add, Multiset.filter_filter]
        congr 1
        · refine Multiset.filter_congr fun x _ => ?_
          simp only [Multiset.mem_cons, Write.deleteOffer.injEq, not_or]
          constructor
          · rintro ⟨hid, hkept⟩ i hi
            exact ⟨fun heq => hid (heq ▸ hi), hkept i hi⟩
          · intro hkept
            exact ⟨fun hid => (hkept id hid).1 rfl, fun i hi => (hkept i hi).2⟩
        · refine Multiset.filter_eq_self.mpr fun x hx => ?_
          obtain ⟨o, -, rfl⟩ := Multiset.mem_map.mp hx
          simp
      · rw [created_cons_none rfl]
      · rw [created_cons_none rfl]
  | addNotif n =>
      refine ⟨htasks, hrate, husers, hoffers.trans ?_, ?_, hviolations.trans ?_,
        hnext.1, Nat.le_succ_of_le hnext.2.1, hnext.2.2⟩
      · rw [created_cons_none rfl]
        simp
      · rw [created_cons_some Write.notif? rfl, ← Multiset.add_assoc, ← hnotifs]
        exact s'.notifs.view_add hnext.2.1 n
      · rw [created_cons_none rfl]
  | addViolation v =>
      refine ⟨htasks, hrate, husers, hoffers.trans ?_, hnotifs.trans ?_, ?_,
        hnext.1, hnext.2.1, Nat.le_succ_of_le hnext.2.2⟩
      · rw [created_cons_none rfl]
        simp
      · rw [created_cons_none rfl]
      · rw [created_cons_some Write.violation? rfl, ← Multiset.add_assoc, ← hviolations]
        exact s'.violations.view_add hnext.2.2 v
  | _ => exact hon.elim

/-- An offer with an id generated before `s` was already stored in `s`. -/
theorem Reached.mem_offers_old {s s' : Store} {writes : Multiset Write}
    (h : Reached s writes s') {d : Doc Offer} (hd : d ∈ s'.offers.docs)
    (hold : d.id < s.offers.next) : d ∈ s.offers.docs := by
  have hview := Collection.mem_view_old hd hold
  rw [h.offers, Multiset.mem_add, Multiset.mem_filter] at hview
  rcases hview with ⟨hview, -⟩ | hnew
  · exact Collection.mem_docs_of_view hview
  · obtain ⟨o, -, heq⟩ := Multiset.mem_map.mp hnew
    simp at heq

/-! ## Documents of other tasks -/

theorem SameOnTask.refl (t : DocId) (s : Store) : SameOnTask t s s := ⟨rfl, rfl, rfl⟩

/-- A write on one task leaves the documents of another alone. -/
theorem SameOnTask.write {s s' : Store} {writes : Multiset Write} (h : Reached s writes s')
    {t t' : DocId} (hne : t' ≠ t) (hsame : SameOnTask t s s') {w : Write} (hon : w.On s t') :
    SameOnTask t s (w.apply s') := by
  obtain ⟨hoffers, hnotifs, hviolations⟩ := hsame
  cases w with
  | addOffer o =>
      obtain rfl : o.task = t' := hon
      exact ⟨(s'.offers.whereEqualTo_add_of_ne hne).trans hoffers, hnotifs, hviolations⟩
  | deleteOffer id =>
      refine ⟨(s'.offers.whereEqualTo_delete_of_ne fun d hd hid => ?_).trans hoffers, hnotifs,
        hviolations⟩
      rw [hon.2 d (h.mem_offers_old hd (hid ▸ hon.1)) hid]
      exact hne
  | addNotif n =>
      obtain rfl : n.task = t' := hon
      exact ⟨hoffers, (s'.notifs.whereEqualTo_add_of_ne hne).trans hnotifs, hviolations⟩
  | addViolation v =>
      obtain rfl : v.taskId = t' := hon
      exact ⟨hoffers, hnotifs, (s'.violations.whereEqualTo_add_of_ne hne).trans hviolations⟩
  | _ => exact hon.elim

end Oun
