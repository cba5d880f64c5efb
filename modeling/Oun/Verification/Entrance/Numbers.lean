import Oun.Verification.Entrance.Attempts

/-! # The ID as a number

The ID is checked as a text when SIGN UP is pressed, and parsed when the account has been
created. In the class of the pattern the bar is a character like the digits around it. -/

namespace Oun

open Firestore Regex Numeral Future

/-- Ten digits of which the first is 1 or 2. -/
def IsId (s : List ℕ) : Prop :=
  s.length = 10 ∧ (∀ d ∈ s, isDecimal d) ∧ (s.head? = some 49 ∨ s.head? = some 50)

/-- A bar and nine digits. -/
def Barred (s : List ℕ) : Prop :=
  ∃ digits : List ℕ, s = 124 :: digits ∧ digits.length = 9 ∧ ∀ d ∈ digits, isDecimal d

/-- What is stored of the text is its number, from which the text can be read back. -/
def StoresId (s : Text) : Prop :=
  ∃ id, parse s = some id ∧ printed id = s ∧
    ∀ uid (scope : Scope), scope.phone.fields.id = s → storeUser uid scope = (.ok (), { scope with
      services.writing := scope.services.writing ++ [⟨uid, scope.phone.fields.user id⟩] })

theorem idValidator_eq_none_iff_isId_or_barred (s : List ℕ) :
    idValidator s = none ↔ IsId s ∨ Barred s := by
  rw [idValidator_eq_none_iff]
  constructor
  · rintro ⟨c, digits, rfl, rfl | rfl | rfl, hnine, hdigits⟩
    · exact .inl ⟨by simp [hnine], List.forall_mem_cons.mpr ⟨by decide, hdigits⟩, .inl rfl⟩
    · exact .inr ⟨digits, rfl, hnine, hdigits⟩
    · exact .inl ⟨by simp [hnine], List.forall_mem_cons.mpr ⟨by decide, hdigits⟩, .inr rfl⟩
  · rintro (⟨hten, hdigits, hfirst⟩ | ⟨digits, rfl, hnine, hdigits⟩)
    · cases s with
      | nil => simp at hten
      | cons c digits =>
          obtain ⟨-, hdigits⟩ := List.forall_mem_cons.mp hdigits
          simp only [List.head?_cons, Option.some.injEq] at hfirst
          exact ⟨c, digits, rfl, hfirst.imp id .inr, by simpa using hten, hdigits⟩
    · exact ⟨124, digits, rfl, .inr (.inl rfl), hnine, hdigits⟩

/-- A bar is no digit. -/
theorem Barred.not_isId {s : List ℕ} (h : Barred s) : ¬ IsId s := by
  obtain ⟨digits, rfl, -⟩ := h
  rintro ⟨-, -, hfirst⟩
  simp at hfirst

theorem IsId.storesId {s : List ℕ} (h : IsId s) : StoresId s := by
  obtain ⟨hten, hdigits, hfirst⟩ := h
  cases s with
  | nil => simp at hten
  | cons c digits =>
      obtain ⟨-, hdigits⟩ := List.forall_mem_cons.mp hdigits
      simp only [List.head?_cons, Option.some.injEq] at hfirst
      have hnine : digits.length = 9 := by simpa using hten
      have hc : 49 ≤ c ∧ c ≤ 57 := by omega
      obtain ⟨n, hspelled, hnumeral, -, hupper⟩ := numeral_of_decimal hc hdigits
      have hlt : n < 2 ^ 63 := by
        rw [hnine] at hupper
        omega
      have hparse := parse_of_decimal hc hdigits hspelled hlt
      refine ⟨n, hparse, hnumeral, fun uid scope hscope => ?_⟩
      simp only [storeUser, hscope, hparse]

/-- The validator accepts exactly the IDs, and each accepted text is stored as its number,
unless the text is a bar and nine digits. -/
theorem idValidator_right_iff (s : List ℕ) :
    ((idValidator s = none ↔ IsId s) ∧ (idValidator s = none → StoresId s)) ↔ ¬ Barred s := by
  rw [idValidator_eq_none_iff_isId_or_barred]
  constructor
  · rintro ⟨hright, -⟩ hbarred
    exact hbarred.not_isId (hright.mp (.inr hbarred))
  · intro hbarred
    constructor
    · exact or_iff_left hbarred
    · rintro (hid | hbar)
      · exact hid.storesId
      · exact absurd hbar hbarred

/-- A bar and nine digits pass the validator and cannot be parsed. -/
theorem barred_id_accepted :
    idValidator (text ['|', '1', '2', '3', '4', '5', '6', '7', '8', '9']) = none ∧
      ¬ IsId (text ['|', '1', '2', '3', '4', '5', '6', '7', '8', '9']) ∧
      parse (text ['|', '1', '2', '3', '4', '5', '6', '7', '8', '9']) = none := by
  refine ⟨by decide +kernel, ?_, by decide⟩
  exact Barred.not_isId ⟨text ['1', '2', '3', '4', '5', '6', '7', '8', '9'], by decide, by decide,
    by decide⟩

end Oun
