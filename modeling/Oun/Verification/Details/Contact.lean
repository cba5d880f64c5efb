import Oun.Model.Details
import Oun.Verification.Entrance.Mobile

/-! # The contact button

Sign-up takes a phone number in five spellings and stores it as it is spelled. The contact
button puts the country code before whatever is stored. -/

namespace Oun

open Firestore Regex Numeral

def countryCode : Text := text ['0', '0', '9', '6', '6']

/-- What may stand before the national number. -/
def spellings : List Text :=
  [countryCode, text ['9', '6', '6'], text ['+', '9', '6', '6'], text ['0'], []]

/-- The national number: 5, the digit of the operator and seven digits. -/
def national (phone : List ℕ) : Text := phone.drop (phone.length - 9)

/-- The contact is the country code and the national number. -/
def Details.Contacts (lst : Details) : Prop :=
  lst.link.phoneNumber = countryCode ++ national lst.phone

theorem phoneValidator_shape {phone : Text} (h : phoneValidator phone = none) :
    ∃ spelling ∈ spellings, ∃ number : List ℕ, phone = spelling ++ 53 :: number ∧
      number.length = 8 ∧ ∀ d ∈ number, isDecimal d := by
  have hspelled : ∀ front ∈ mobilePrefixes, ∃ spelling ∈ spellings, front = spelling ++ [53] := by
    decide
  obtain ⟨front, hfront, operator, digits, rfl, ⟨hoperator, -⟩, hseven, hdigits⟩ :=
    (phoneValidator_eq_none_iff phone).mp h
  obtain ⟨spelling, hmem, rfl⟩ := hspelled front hfront
  refine ⟨spelling, hmem, operator :: digits, by simp, by simp [hseven], ?_⟩
  exact List.forall_mem_cons.mpr ⟨hoperator, hdigits⟩

theorem national_eq {spelling number : List ℕ} (h : number.length = 8) :
    national (spelling ++ 53 :: number) = 53 :: number := by
  unfold national
  rw [List.drop_append_of_le_length (by simp [h]), List.drop_eq_nil_iff.mpr (by simp [h])]
  rfl

/-- No spelling but the shortest begins with a 5. -/
theorem spellings_first : ∀ spelling ∈ spellings, ∀ number : List ℕ,
    (spelling ++ 53 :: number).head? = some 53 ↔ spelling = [] := by
  intro spelling hspelling number
  simp only [spellings, List.mem_cons, List.not_mem_nil, or_false] at hspelling
  rcases hspelling with rfl | rfl | rfl | rfl | rfl <;> simp [countryCode, text]

/-- The contact is right exactly if the number is spelled without a prefix. -/
theorem contacts_iff_of_valid {lst : Details} (h : phoneValidator lst.phone = none) :
    lst.Contacts ↔ lst.phone.head? = some 53 := by
  obtain ⟨spelling, hmem, number, hphone, hlength, -⟩ := phoneValidator_shape h
  unfold Details.Contacts Details.link
  rw [hphone, spellings_first spelling hmem number, national_eq hlength]
  show countryCode ++ _ = _ ↔ _
  rw [List.append_cancel_left_eq, List.append_left_eq_self]

/-- Every accepted phone number has a national number; its contact is the country code and that
number exactly if it is spelled without a prefix, and then all such spellings have one contact. -/
theorem contacts_iff (lst : Details) (h : phoneValidator lst.phone = none) :
    (∃ number : List ℕ, national lst.phone = 53 :: number ∧ number.length = 8 ∧
      ∀ d ∈ number, isDecimal d) ∧
    (lst.Contacts ↔ lst.phone.head? = some 53) ∧
    ∀ lst' : Details, phoneValidator lst'.phone = none → lst.phone.head? = some 53 →
      lst'.phone.head? = some 53 → national lst'.phone = national lst.phone →
        lst'.link.phoneNumber = lst.link.phoneNumber := by
  refine ⟨?_, contacts_iff_of_valid h, fun lst' h' hfirst hfirst' hsame => ?_⟩
  · obtain ⟨spelling, -, number, hphone, hlength, hnumber⟩ := phoneValidator_shape h
    exact ⟨number, by rw [hphone, national_eq hlength], hlength, hnumber⟩
  · have hcontacts : lst.Contacts := (contacts_iff_of_valid h).mpr hfirst
    have hcontacts' : lst'.Contacts := (contacts_iff_of_valid h').mpr hfirst'
    calc lst'.link.phoneNumber = countryCode ++ national lst'.phone := hcontacts'
      _ = countryCode ++ national lst.phone := by rw [hsame]
      _ = lst.link.phoneNumber := hcontacts.symm

namespace Scenario

/-- A provider whose phone number is 55 555 5555 after the prefix. -/
def reachedUnder (spelling : List Char) : Details where
  name := text ['S', 'a', 'r', 'a']
  rate := .value 0
  phone := text (spelling ++ ['5', '5', '5', '5', '5', '5', '5', '5', '5'])
  price := text ['6', '0']

end Scenario

theorem contacts_iff_plain : phoneValidator (Scenario.reachedUnder []).phone = none ∧
    (Scenario.reachedUnder []).Contacts :=
  ⟨by decide +kernel,
    (contacts_iff (Scenario.reachedUnder []) (by decide +kernel)).2.1.mpr (by decide)⟩

/-- The spelling with the leading zero leads to another contact. -/
theorem zero_contact_differs : phoneValidator (Scenario.reachedUnder ['0']).phone = none ∧
    national (Scenario.reachedUnder ['0']).phone = national (Scenario.reachedUnder []).phone ∧
    (Scenario.reachedUnder ['0']).link.phoneNumber ≠
      countryCode ++ national (Scenario.reachedUnder ['0']).phone ∧
    (Scenario.reachedUnder ['0']).link.phoneNumber ≠
      (Scenario.reachedUnder []).link.phoneNumber :=
  ⟨by decide +kernel, by decide, by decide, by decide⟩

end Oun
