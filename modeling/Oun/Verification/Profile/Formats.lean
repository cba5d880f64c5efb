import Oun.Model.Profile
import Oun.Verification.Details.Contact

/-! # What the edit pages store

The pages for name and phone have validators of their own, and the phone page rewrites what is
typed. What they store is compared with what the validators of sign-up accept. -/

namespace Oun

open Firestore Regex Numeral

/-! ## The pages with the predicates of the package -/

/-- `^[a-zA-Z]+$` -/
def alphaPattern : Pattern :=
  inOrder [.lineStart, plus (anyOf [range 'a' 'z', range 'A' 'Z']), .lineEnd]

/-- `^-?[0-9]+$` -/
def numericPattern : Pattern :=
  inOrder [.lineStart, upTo 1 (char '-'), plus digit, .lineEnd]

/-- The two predicates of `string_validator`; that of `email_validator` is left open. -/
def stringValidator (emailValidate : Text → Bool) : Validators where
  isAlpha := alphaPattern.hasMatch
  isNumeric := numericPattern.hasMatch
  emailValidate := emailValidate

/-- `substring` throws unless its bounds lie in the text, one after the other. -/
def substring (s : Text) (start stop : ℕ) : Option Text :=
  if start ≤ stop ∧ stop ≤ s.length then some ((s.take stop).drop start) else none

/-- The text that the page puts together before it assigns anything. -/
def Edit.formatted : Edit → Option Text
  | .phone value => do
      let area ← substring value 0 3
      let exchange ← substring value 3 6
      let line ← substring value 6 value.length
      return text ['('] ++ area ++ text [')', ' '] ++ exchange ++ text ['-'] ++ line
  | edit => some edit.value

/-- The validator of sign-up for the same field. -/
def Field.signUpValidator : Field → Text → Option String
  | .name => nameValidator
  | .phone => phoneValidator
  | .email => emailValidator

/-! ## Names -/

theorem isAlpha_iff (s : Text) : alphaPattern.hasMatch s = true ↔
    s ≠ [] ∧ ∀ c ∈ s, (97 ≤ c ∧ c ≤ 122) ∨ (65 ≤ c ∧ c ≤ 90) := by
  unfold alphaPattern
  rw [anchored_hasMatch]
  exact Pattern.IsClass.plus_matches (.alt (.range 'a' 'z') (.range 'A' 'Z')) [] s []

theorem nameValidator_eq_none_iff (s : Text) : nameValidator s = none ↔
    s ≠ [] ∧ ∀ c ∈ s, (97 ≤ c ∧ c ≤ 122) ∨ c = 32 ∨ (65 ≤ c ∧ c ≤ 90) := by
  have hmatch : namePattern.hasMatch s = true ↔
      s ≠ [] ∧ ∀ c ∈ s, (97 ≤ c ∧ c ≤ 122) ∨ c = 32 ∨ (65 ≤ c ∧ c ≤ 90) := by
    unfold namePattern
    rw [anchored_hasMatch]
    exact Pattern.IsClass.plus_matches
      (.alt (.range 'a' 'z') (.alt (.char ' ') (.range 'A' 'Z'))) [] s []
  rw [← hmatch, nameValidator, check_eq_none_iff]
  constructor
  · rintro ⟨hvalid, -⟩
    simp only [Bool.or_eq_true, not_or, Bool.not_eq_true', Bool.not_eq_false] at hvalid
    exact hvalid.2
  · intro h
    have hne : s ≠ [] := (hmatch.mp h).1
    simp [h, hne]

/-- Two words of letters with a blank between them are a name for sign-up. -/
theorem fullName_accepted {first second : Text} (hfirst : alphaPattern.hasMatch first = true)
    (hsecond : alphaPattern.hasMatch second = true) :
    nameValidator (first ++ text [' '] ++ second) = none := by
  obtain ⟨-, hfirst⟩ := (isAlpha_iff first).mp hfirst
  obtain ⟨-, hsecond⟩ := (isAlpha_iff second).mp hsecond
  refine (nameValidator_eq_none_iff _).mpr ⟨by simp [text], fun c hc => ?_⟩
  simp only [List.mem_append] at hc
  rcases hc with (hc | hc) | hc
  · exact (hfirst c hc).imp id .inr
  · exact .inr (.inl (by simpa [text] using hc))
  · exact (hsecond c hc).imp id .inr

/-! ## Phone numbers -/

/-- From six characters on the formatting does not throw. -/
theorem formatted_phone {phone : List ℕ} (h : 6 ≤ phone.length) :
    (Edit.phone phone).formatted = some (formattedPhoneNumber phone) := by
  have hthree : 3 ≤ phone.length := by omega
  simp [Edit.formatted, substring, formattedPhoneNumber, h, hthree]

/-- No spelling of a phone number begins with a bracket. -/
theorem formatted_rejected (phone : Text) :
    phoneValidator (formattedPhoneNumber phone) ≠ none := by
  intro h
  obtain ⟨spelling, hspelling, number, hphone, -⟩ := phoneValidator_shape h
  have hhead := congrArg List.head? hphone
  simp only [spellings, List.mem_cons, List.not_mem_nil, or_false] at hspelling
  rcases hspelling with rfl | rfl | rfl | rfl | rfl <;>
    simp [formattedPhoneNumber, countryCode, text] at hhead

theorem editPhoneValidator_length {v : Validators} {value : List ℕ}
    (h : editPhoneValidator v value = none) : 10 ≤ value.length := by
  simp only [editPhoneValidator, check_eq_none_iff] at h
  exact Nat.not_lt.mp h.2.2.1

/-! ## Both pages -/

/-- The formatting does not throw, and sign-up would accept what is stored. -/
def Edit.Compatible (edit : Edit) : Prop :=
  ∃ stored, edit.formatted = some stored ∧ edit.field.signUpValidator stored = none

/-- What the name page stores sign-up would accept; what the phone page stores it never would,
although its formatting does not throw either. -/
theorem edit_compatible_iff (emailValidate : Text → Bool) (edit : Edit)
    (h : edit.accepted (stringValidator emailValidate) = true) (hfield : edit.field ≠ .email) :
    edit.formatted = some edit.value ∧ (edit.Compatible ↔ edit.field = .name) := by
  cases edit with
  | name first second =>
      have halpha : ∀ message (value : Text), (lettersValidator (stringValidator emailValidate)
          message value).isNone = true → alphaPattern.hasMatch value = true := by
        intro message value hvalid
        simp only [lettersValidator, Option.isNone_iff_eq_none, check_eq_none_iff] at hvalid
        simpa [stringValidator] using hvalid.2.1
      simp only [Edit.accepted, firstNameValidator, secondNameValidator, Bool.and_eq_true] at h
      refine ⟨rfl, iff_of_true ⟨_, rfl, ?_⟩ rfl⟩
      exact fullName_accepted (halpha _ _ h.1.1) (halpha _ _ h.1.2)
  | phone value =>
      simp only [Edit.accepted, Bool.and_eq_true, Option.isNone_iff_eq_none] at h
      have hlength := editPhoneValidator_length h.1
      have hformatted : (Edit.phone value).formatted = some (formattedPhoneNumber value) :=
        formatted_phone (by omega)
      refine ⟨hformatted, iff_of_false ?_ (by simp [Edit.field])⟩
      rintro ⟨stored, hstored, hvalid⟩
      obtain rfl := Option.some.inj (hformatted.symm.trans hstored)
      exact formatted_rejected value hvalid
  | email value => exact absurd rfl hfield

namespace Scenario

def fullName : Edit := .name (text ['S', 'a', 'r', 'a']) (text ['S', 'a', 'a', 'd'])

def tenDigits : Edit := .phone (text ['0', '5', '5', '5', '5', '5', '5', '5', '5', '5'])

end Scenario

theorem edit_compatible_fullName :
    Scenario.fullName.accepted (stringValidator fun _ => true) = true ∧
      Scenario.fullName.Compatible :=
  ⟨by decide +kernel, (edit_compatible_iff (fun _ => true) Scenario.fullName (by decide +kernel)
    (by decide)).2.mpr rfl⟩

/-- A phone number that sign-up would have accepted is stored in another form. -/
theorem phone_edit_incompatible :
    Scenario.tenDigits.accepted (stringValidator fun _ => true) = true ∧
      Scenario.tenDigits.formatted = some (text ['(', '0', '5', '5', ')', ' ', '5', '5', '5', '-',
        '5', '5', '5', '5']) ∧
      ¬ Scenario.tenDigits.Compatible := by
  refine ⟨by decide +kernel, by decide, ?_⟩
  rintro ⟨stored, hstored, hvalid⟩
  obtain rfl : formattedPhoneNumber _ = stored := Option.some.inj hstored
  exact formatted_rejected _ hvalid

end Oun
