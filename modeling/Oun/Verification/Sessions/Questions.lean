import Oun.Model.Handlers

/-! # What the questions answer

The counting loops of the screens, as functions of the documents in any order. -/

namespace Oun

open Firestore Regex

theorem foldl_count {α : Type*} (p : α → Prop) [DecidablePred p] (documents : List α)
    (count : ℕ) :
    documents.foldl (fun count d => if p d then count + 1 else count) count =
      count + documents.countP (fun d => decide (p d)) := by
  induction documents generalizing count with
  | nil => rfl
  | cons d documents ih =>
      rw [List.foldl_cons, ih, List.countP_cons]
      by_cases h : p d
      · simp only [h, ite_true, decide_true]
        omega
      · simp only [h, ite_false, decide_false, Bool.false_eq_true]
        omega

theorem hasOffered_eq (documents : List (Doc Offer)) (uid : Uid) :
    hasOffered documents uid =
      (documents.countP (fun d => decide (d.data.provider = uid)) == 0) := by
  rw [hasOffered, foldl_count, Nat.zero_add]

theorem noReported_eq (documents : List (Doc Violation)) (uid : Uid) :
    noReported documents uid =
      (documents.countP (fun d => decide (d.data.reporter = uid)) == 0) := by
  rw [noReported, foldl_count, Nat.zero_add]

theorem badge_eq (documents : List (Doc Notif)) :
    badge documents = documents.countP (fun d => d.data.new) := by
  rw [badge, foldl_count, Nat.zero_add]
  simp

theorem hasOffered_perm {documents documents' : List (Doc Offer)} (h : documents.Perm documents')
    (uid : Uid) : hasOffered documents uid = hasOffered documents' uid := by
  rw [hasOffered_eq, hasOffered_eq, h.countP_eq]

theorem noReported_perm {documents documents' : List (Doc Violation)}
    (h : documents.Perm documents') (uid : Uid) :
    noReported documents uid = noReported documents' uid := by
  rw [noReported_eq, noReported_eq, h.countP_eq]

/-! ## Acceptance -/

private theorem isAccepted_fold (documents : List (Doc Notif)) (count : ℕ)
    (provider : Option Uid) :
    (documents.foldl (fun (x : ℕ × Option Uid) d =>
      if d.data.status = .accepted then (x.1 + 1, some d.data.user) else (x.1, x.2))
      (count, provider)).1 =
      count + documents.countP (fun d => decide (d.data.status = .accepted)) := by
  induction documents generalizing count provider with
  | nil => rfl
  | cons d documents ih =>
      rw [List.foldl_cons, List.countP_cons]
      by_cases h : d.data.status = .accepted
      · simp only [h, ite_true, ih, decide_true]
        omega
      · simp only [h, ite_false, ih, decide_false, Bool.false_eq_true]
        omega

theorem isAccepted_fst (documents : List (Doc Notif)) (provider : Option Uid) :
    (isAccepted documents provider).1 =
      (documents.countP (fun d => decide (d.data.status = .accepted)) == 1) := by
  have h := isAccepted_fold documents 0 provider
  rw [Nat.zero_add] at h
  exact congrArg (· == 1) h

theorem listIsAccepted_iff (documents : List (Doc Notif)) (taskId : DocId) :
    listIsAccepted documents taskId = true ↔ ∃ d ∈ documents, d.data.task = taskId := by
  have hfold : ∀ answer : Bool, documents.foldl (fun isaccepted d =>
      if d.data.task = taskId then true else isaccepted) answer = true ↔
      answer = true ∨ ∃ d ∈ documents, d.data.task = taskId := by
    induction documents with
    | nil => simp
    | cons d documents ih =>
        intro answer
        rw [List.foldl_cons, ih]
        by_cases h : d.data.task = taskId <;> simp [h]
  simpa [listIsAccepted] using hfold false

/-- `isAccepted()` leaves the user of an acceptance it found, or the old value if it found
none. -/
theorem isAccepted_snd (documents : List (Doc Notif)) (provider : Option Uid) :
    ((∀ d ∈ documents, d.data.status ≠ .accepted) ∧ (isAccepted documents provider).2 = provider) ∨
      ∃ d ∈ documents, d.data.status = .accepted ∧
        (isAccepted documents provider).2 = some d.data.user := by
  have hfold : ∀ (count : ℕ) (provider : Option Uid),
      ((∀ d ∈ documents, d.data.status ≠ .accepted) ∧
        (documents.foldl (fun (x : ℕ × Option Uid) d =>
          if d.data.status = .accepted then (x.1 + 1, some d.data.user) else (x.1, x.2))
          (count, provider)).2 = provider) ∨
      ∃ d ∈ documents, d.data.status = .accepted ∧
        (documents.foldl (fun (x : ℕ × Option Uid) d =>
          if d.data.status = .accepted then (x.1 + 1, some d.data.user) else (x.1, x.2))
          (count, provider)).2 = some d.data.user := by
    induction documents with
    | nil => simp
    | cons d documents ih =>
        intro count provider
        rw [List.foldl_cons]
        by_cases h : d.data.status = .accepted
        · simp only [h, ite_true]
          rcases ih (count + 1) (some d.data.user) with ⟨-, hsame⟩ | ⟨d', hd', h', hset⟩
          · exact .inr ⟨d, List.mem_cons_self, h, hsame⟩
          · exact .inr ⟨d', List.mem_cons_of_mem _ hd', h', hset⟩
        · simp only [h, ite_false]
          rcases ih count provider with ⟨hnone, hsame⟩ | ⟨d', hd', h', hset⟩
          · exact .inl ⟨by simpa [h] using hnone, hsame⟩
          · exact .inr ⟨d', List.mem_cons_of_mem _ hd', h', hset⟩
  exact hfold 0 provider

/-- On every answer to its query, `isAccepted()` leaves the user of a stored acceptance of the
task, or the old value if it found none. -/
theorem isAccepted_stored {s : Store} {t : DocId} {documents : List (Doc Notif)}
    (h : documents.Perm (s.notifs.whereEqualTo Notif.task t)) (provider : Option Uid) :
    ((∀ d ∈ documents, d.data.status ≠ .accepted) ∧ (isAccepted documents provider).2 = provider) ∨
      ∃ d ∈ documents, d ∈ s.notifs.docs ∧ d.data.task = t ∧ d.data.status = .accepted ∧
        (isAccepted documents provider).2 = some d.data.user := by
  refine (isAccepted_snd documents provider).imp_right ?_
  rintro ⟨d, hd, hstatus, hset⟩
  obtain ⟨hstored, htask⟩ := (s.notifs.mem_whereEqualTo _ _ d).mp (h.mem_iff.mp hd)
  exact ⟨d, hd, hstored, htask, hstatus, hset⟩

end Oun
