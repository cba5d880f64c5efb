import Oun.Model.Entrance

/-! # The two validators of phone numbers

The named validator has a copy of the pattern of the form, between the slashes that delimit
a pattern in other languages. Here they are characters of the pattern: one of them would have
to stand before the start of the text. -/

namespace Oun

open Regex Numeral

/-- What the patterns list before the digit of the operator. -/
def mobilePrefixes : List Text :=
  [text ['0', '0', '9', '6', '6', '5'], text ['9', '6', '6', '5'],
    text ['+', '9', '6', '6', '5'], text ['0', '5'], text ['5']]

/-- A listed prefix, the digit of an operator, which is not a 2, and seven digits. -/
def IsMobile (value : List ℕ) : Prop :=
  ∃ front ∈ mobilePrefixes, ∃ (operator : ℕ) (digits : List ℕ),
    value = front ++ operator :: digits ∧ (isDecimal operator ∧ operator ≠ 50) ∧
      digits.length = 7 ∧ ∀ d ∈ digits, isDecimal d

/-! ## The validator of the form -/

theorem operator_matches (before middle after : Text) :
    (anyOf [char '5', char '0', char '3', char '6', char '4', char '9', char '1', char '8',
      char '7']).Matches before middle after ↔
      ∃ operator : ℕ, middle = [operator] ∧ isDecimal operator ∧ operator ≠ 50 := by
  simp only [anyOf_matches, List.mem_cons, List.not_mem_nil, or_false, exists_eq_or_imp,
    exists_eq_left, char_matches]
  constructor
  · rintro (rfl | rfl | rfl | rfl | rfl | rfl | rfl | rfl | rfl) <;>
      exact ⟨_, rfl, by decide, by decide⟩
  · rintro ⟨operator, rfl, ⟨hlow, hhigh⟩, htwo⟩
    simp only [List.cons.injEq, and_true, Char.reduceToNat]
    omega

theorem mobilePrefixes_match (before middle after : Text) :
    (anyOf [word ['0', '0', '9', '6', '6', '5'], word ['9', '6', '6', '5'],
      word ['+', '9', '6', '6', '5'], word ['0', '5'], word ['5']]).Matches before middle after ↔
      middle ∈ mobilePrefixes := by
  simp only [anyOf_matches, List.mem_cons, List.not_mem_nil, or_false, exists_eq_or_imp,
    exists_eq_left, word_matches, mobilePrefixes]

theorem phonePattern_hasMatch (value : List ℕ) :
    phonePattern.hasMatch value = true ↔ IsMobile value := by
  simp only [phonePattern, Pattern.hasMatch_iff, inOrder, Pattern.Matches, mobilePrefixes_match,
    operator_matches, times_digit_matches]
  constructor
  · rintro ⟨before, _, after, rfl, _, _, rfl, ⟨rfl, rfl⟩, front, _, rfl, hfront, _, _, rfl,
      ⟨operator, rfl, hoperator⟩, digits, _, rfl, hdigits, rfl, rfl⟩
    exact ⟨front, hfront, operator, digits, by simp, hoperator, hdigits⟩
  · rintro ⟨front, hfront, operator, digits, rfl, hoperator, hdigits⟩
    exact ⟨[], front ++ operator :: digits, [], by simp, [], _, rfl, ⟨rfl, rfl⟩, front, _, rfl,
      hfront, [operator], digits, rfl, ⟨operator, rfl, hoperator⟩, digits, [], by simp, hdigits,
      rfl, rfl⟩

/-- The validator of the form accepts the mobile numbers. -/
theorem phoneValidator_eq_none_iff (value : List ℕ) :
    phoneValidator value = none ↔ IsMobile value := by
  rw [← phonePattern_hasMatch]
  exact required_eq_none_iff (by decide +kernel) value

/-! ## The named validator -/

/-- No text has a slash before its start. -/
theorem mobilePattern_hasMatch (value : Text) : mobilePattern.hasMatch value = false := by
  refine lineStart_hasMatch (fun before after hmatches => ?_) value
  cases (char_matches ..).mp hmatches

theorem validateMobile_ne_none (value : Text) : validateMobile value ≠ none := by
  rw [validateMobile, Ne, required_eq_none_iff (mobilePattern_hasMatch []), mobilePattern_hasMatch]
  exact Bool.false_ne_true

/-- The two validators agree on a text, and the named one is right about it, exactly if the text
is not a mobile number. -/
theorem validateMobile_agrees_iff (value : Text) :
    ((validateMobile value = none ↔ phoneValidator value = none) ∧
      (validateMobile value = none ↔ IsMobile value)) ↔ ¬ IsMobile value := by
  simp only [phoneValidator_eq_none_iff, and_self, validateMobile_ne_none value, false_iff]

namespace Scenario

/-- The number that the comment on the validator calls a real one. -/
def realNumber : Text := text ['0', '5', '4', '2', '3', '6', '7', '8', '9', '4']

end Scenario

theorem real_number_rejected :
    ¬ (validateMobile Scenario.realNumber = none ↔ phoneValidator Scenario.realNumber = none) ∧
      ¬ (validateMobile Scenario.realNumber = none ↔ IsMobile Scenario.realNumber) := by
  have hrejected : validateMobile Scenario.realNumber ≠ none := by decide +kernel
  have hnumber : IsMobile Scenario.realNumber :=
    ⟨text ['0', '5'], by decide, 52, text ['2', '3', '6', '7', '8', '9', '4'], by decide⟩
  constructor
  · exact fun h => hrejected (h.mpr (by decide +kernel))
  · exact fun h => hrejected (h.mpr hnumber)

end Oun
