import Mathlib.Algebra.Ring.Int.Defs
import Mathlib.Algebra.Ring.Nat
import Mathlib.Data.List.DropRight
import Oun.Library.Regex

/-! # Numerals

Trimming a text and reading an integer off it. -/

namespace Numeral

open Regex

/-- White space at the ends of a text: that of Unicode and the byte order mark. -/
def isBlank (c : ℕ) : Bool :=
  (9 ≤ c && c ≤ 13) || (8192 ≤ c && c ≤ 8202) ||
    [32, 133, 160, 5760, 8232, 8233, 8239, 8287, 12288, 65279].contains c

def trim (s : Text) : Text := (s.dropWhile isBlank).rdropWhile isBlank

def digitValue (c : ℕ) : Option ℕ :=
  if 48 ≤ c ∧ c ≤ 57 then some (c - 48)
  else if 65 ≤ c ∧ c ≤ 70 then some (c - 55)
  else if 97 ≤ c ∧ c ≤ 102 then some (c - 87)
  else none

/-- The number that `value` becomes when the digits are appended to its numeral. -/
def spelled (radix : ℕ) : ℕ → Text → Option ℕ
  | value, [] => some value
  | value, c :: s =>
      match digitValue c with
      | some d => if d < radix then spelled radix (radix * value + d) s else none
      | none => none

/-- An unsigned numeral, and whether it is hexadecimal. -/
def unsigned : Text → Option (ℕ × Bool)
  | [] => none
  | 48 :: c :: s =>
      if c = 120 ∨ c = 88 then
        if s.isEmpty then none else (spelled 16 0 s).map (·, true)
      else (spelled 10 0 (48 :: c :: s)).map (·, false)
  | s => (spelled 10 0 s).map (·, false)

/-- An unsigned numeral as an integer of 64 bits; a hexadecimal one may set the sign bit. -/
def positive (s : Text) : Option ℤ :=
  match unsigned s with
  | some (n, hex) =>
      if n < 2 ^ 63 then some n
      else if hex && n < 2 ^ 64 then some ((n : ℤ) - 2 ^ 64)
      else none
  | none => none

def negative (s : Text) : Option ℤ :=
  match unsigned s with
  | some (n, _) => if n ≤ 2 ^ 63 then some (-(n : ℤ)) else none
  | none => none

/-- `int.parse` without a radix. -/
def parse (source : Text) : Option ℤ :=
  match trim source with
  | 45 :: s => negative s
  | 43 :: s => positive s
  | s => positive s

/-- Trimming changes a text exactly if it begins or ends with white space. -/
theorem trim_eq_self_iff (s : List ℕ) :
    trim s = s ↔ (∀ c ∈ s.head?, isBlank c = false) ∧ ∀ c ∈ s.getLast?, isBlank c = false := by
  have hfront : s.dropWhile isBlank = s ↔ ∀ c ∈ s.head?, isBlank c = false := by
    rw [List.dropWhile_eq_self_iff]
    cases s with
    | nil => simp
    | cons c s => simp
  have hback : s.rdropWhile isBlank = s ↔ ∀ c ∈ s.getLast?, isBlank c = false := by
    rw [List.rdropWhile_eq_self_iff]
    cases s using List.reverseRecOn with
    | nil => simp
    | append_singleton s c => simp
  rw [← hfront, ← hback, trim]
  constructor
  · intro h
    have hkept : s.dropWhile isBlank = s := by
      refine (List.dropWhile_suffix _).eq_of_length (Nat.le_antisymm ?_ ?_)
      · exact (List.dropWhile_suffix _).length_le
      · calc s.length = ((s.dropWhile isBlank).rdropWhile isBlank).length := by rw [h]
          _ ≤ (s.dropWhile isBlank).length := (List.rdropWhile_prefix _ _).length_le
    exact ⟨hkept, by rwa [hkept] at h⟩
  · rintro ⟨hkept, h⟩
    rw [hkept, h]

theorem trim_of_notBlank {s : Text} (h : ∀ c ∈ s, isBlank c = false) : trim s = s :=
  (trim_eq_self_iff s).mpr ⟨fun c hc => h c (List.mem_of_mem_head? hc),
    fun c hc => h c (List.mem_of_mem_getLast? hc)⟩

def isDecimal (c : ℕ) : Prop := 48 ≤ c ∧ c ≤ 57

instance (c : ℕ) : Decidable (isDecimal c) := by
  unfold isDecimal; infer_instance

theorem isBlank_of_decimal {c : ℕ} (h : isDecimal c) : isBlank c = false := by
  obtain ⟨hlow, hhigh⟩ := h
  simp [isBlank]
  omega

/-- A text spells a number if it has digits only, and the number has no more digits. -/
theorem spelled_of_decimal {s : List ℕ} (h : ∀ c ∈ s, isDecimal c) (value : ℕ) :
    ∃ n, spelled 10 value s = some n ∧ n < (value + 1) * 10 ^ s.length := by
  induction s generalizing value with
  | nil => exact ⟨value, rfl, by simp⟩
  | cons c s ih =>
      obtain ⟨hlow, hhigh⟩ : isDecimal c := h c (by simp)
      obtain ⟨n, hn, hbound⟩ := ih (fun d hd => h d (by simp [hd])) (10 * value + (c - 48))
      have hdigit : digitValue c = some (c - 48) := by simp [digitValue, hlow, hhigh]
      have hlt : c - 48 < 10 := by omega
      refine ⟨n, by simp only [spelled, hdigit, hlt, ite_true, hn], ?_⟩
      calc n < (10 * value + (c - 48) + 1) * 10 ^ s.length := hbound
        _ ≤ (10 * (value + 1)) * 10 ^ s.length := Nat.mul_le_mul_right _ (by omega)
        _ = (value + 1) * 10 ^ (c :: s).length := by
            rw [List.length_cons, Nat.pow_succ, Nat.mul_comm 10 (value + 1), Nat.mul_assoc,
              Nat.mul_comm 10]

/-- A first character that is neither a digit, nor a sign, nor blank is not a numeral's. -/
theorem spelled_of_not_digit {c : ℕ} (h : digitValue c = none) (radix value : ℕ)
    (s : Text) : spelled radix value (c :: s) = none := by
  simp only [spelled, h]

/-! ## Printing -/

/-- `toString` of a number that is not negative. -/
def numeral (n : ℕ) : Text := text (Nat.toDigits 10 n)

/-- `toString` of an integer. -/
def printed : ℤ → Text
  | .ofNat n => numeral n
  | .negSucc n => 45 :: numeral (n + 1)

theorem numeral_digit {d : ℕ} (h : d < 10) : numeral d = [d + 48] := by
  rw [numeral, Nat.toDigits_of_lt_base h, text, List.map_singleton,
    Nat.toNat_digitChar_of_lt_ten h, Nat.add_comm]

theorem numeral_snoc {n d : ℕ} (hn : 0 < n) (hd : d < 10) :
    numeral (10 * n + d) = numeral n ++ [d + 48] := by
  have h := Nat.toDigits_append_toDigits (b := 10) (by decide) hn hd
  rw [numeral, ← h, text, List.map_append]
  exact congrArg (numeral n ++ ·) (numeral_digit hd)

theorem digitValue_of_decimal {c : ℕ} (h : isDecimal c) : digitValue c = some (c - 48) := by
  simp [digitValue, h.1, h.2]

theorem spelled_cons {c : ℕ} (h : isDecimal c) (value : ℕ) (s : Text) :
    spelled 10 value (c :: s) = spelled 10 (10 * value + (c - 48)) s := by
  have hlt : c - 48 < 10 := by
    have := h.2
    omega
  simp only [spelled, digitValue_of_decimal h, if_pos hlt]

/-- A number spelled on is spelled by its own numeral. -/
theorem numeral_of_spelled {s : List ℕ} (h : ∀ c ∈ s, isDecimal c) {value n : ℕ}
    (hpos : 0 < value) (hn : spelled 10 value s = some n) : numeral n = numeral value ++ s := by
  induction s generalizing value with
  | nil =>
      obtain rfl : value = n := Option.some.inj hn
      simp
  | cons c s ih =>
      have hc : isDecimal c := h c (by simp)
      have hdigit : c - 48 < 10 ∧ c - 48 + 48 = c := by
        obtain ⟨hlow, hhigh⟩ := hc
        omega
      rw [spelled_cons hc] at hn
      rw [ih (fun d hd => h d (by simp [hd])) (by omega) hn, numeral_snoc hpos hdigit.1, hdigit.2,
        List.append_assoc, List.singleton_append]

/-- Each digit that is spelled on makes the number ten times as large. -/
theorem spelled_lower {s : List ℕ} (h : ∀ c ∈ s, isDecimal c) {value n : ℕ}
    (hn : spelled 10 value s = some n) : value * 10 ^ s.length ≤ n := by
  induction s generalizing value with
  | nil =>
      obtain rfl : value = n := Option.some.inj hn
      simp
  | cons c s ih =>
      rw [spelled_cons (h c (by simp))] at hn
      calc value * 10 ^ (c :: s).length = (10 * value) * 10 ^ s.length := by
            rw [List.length_cons, Nat.pow_succ, Nat.mul_comm _ 10, ← Nat.mul_assoc,
              Nat.mul_comm value 10]
        _ ≤ (10 * value + (c - 48)) * 10 ^ s.length := Nat.mul_le_mul_right _ (by omega)
        _ ≤ n := ih (fun d hd => h d (by simp [hd])) hn

/-- A text without a leading zero is a numeral, and its length bounds the number. -/
theorem numeral_of_decimal {c : ℕ} {s : List ℕ} (hc : 49 ≤ c ∧ c ≤ 57)
    (h : ∀ d ∈ s, isDecimal d) :
    ∃ n, spelled 10 0 (c :: s) = some n ∧ numeral n = c :: s ∧
      (c - 48) * 10 ^ s.length ≤ n ∧ n < (c - 48 + 1) * 10 ^ s.length := by
  have hdecimal : isDecimal c := ⟨by omega, hc.2⟩
  have hdigit : c - 48 < 10 ∧ c - 48 + 48 = c := by omega
  obtain ⟨n, hn, hupper⟩ := spelled_of_decimal h (c - 48)
  refine ⟨n, ?_, ?_, spelled_lower h hn, hupper⟩
  · rw [spelled_cons hdecimal, Nat.mul_zero, Nat.zero_add, hn]
  · rw [numeral_of_spelled h (by omega) hn, numeral_digit hdigit.1, hdigit.2,
      List.singleton_append]

/-- The numeral of a positive number has no leading zero. -/
theorem numeral_shape {n : ℕ} (h : 0 < n) :
    ∃ (c : ℕ) (s : List ℕ), numeral n = c :: s ∧ (49 ≤ c ∧ c ≤ 57) ∧ ∀ d ∈ s, isDecimal d := by
  induction n using Nat.strong_induction_on with
  | _ n ih =>
      by_cases hone : n < 10
      · exact ⟨n + 48, [], numeral_digit hone, ⟨by omega, by omega⟩, by simp⟩
      · obtain ⟨c, s, hnum, hc, hs⟩ := ih (n / 10) (by omega) (by omega)
        refine ⟨c, s ++ [n % 10 + 48], ?_, hc, ?_⟩
        · rw [← List.cons_append, ← hnum, ← numeral_snoc (by omega) (by omega),
            Nat.div_add_mod]
        · intro d hd
          rcases List.mem_append.mp hd with hd | hd
          · exact hs d hd
          · rw [List.mem_singleton.mp hd]
            unfold isDecimal
            omega

theorem numeral_injective {n m : ℕ} (h : numeral n = numeral m) : n = m := by
  have hdigits : Nat.toDigits 10 n = Nat.toDigits 10 m :=
    List.map_injective_iff.mpr (fun a b hab => Char.toNat_inj.mp hab) h
  rw [← Nat.ofDigitChars_ten_toDigits (n := n), hdigits, Nat.ofDigitChars_ten_toDigits]

/-- A text without a leading zero is parsed to the number that it spells. -/
theorem parse_of_decimal {c : ℕ} {s : List ℕ} (hc : 49 ≤ c ∧ c ≤ 57)
    (h : ∀ d ∈ s, isDecimal d) {n : ℕ} (hn : spelled 10 0 (c :: s) = some n) (hlt : n < 2 ^ 63) :
    parse (c :: s) = some (n : ℤ) := by
  have hblank : ∀ d ∈ c :: s, isBlank d = false :=
    List.forall_mem_cons.mpr ⟨isBlank_of_decimal ⟨by omega, hc.2⟩,
      fun d hd => isBlank_of_decimal (h d hd)⟩
  have hparse : parse (c :: s) = positive (c :: s) := by
    rw [parse, trim_of_notBlank hblank]
    split
    · rename_i heq
      cases heq
      omega
    · rename_i heq
      cases heq
      omega
    · rfl
  have hunsigned : unsigned (c :: s) = some (n, false) := by
    unfold unsigned
    split
    · rename_i heq
      cases heq
    · rename_i heq
      cases heq
      omega
    · rw [hn, Option.map_some]
  rw [hparse, positive, hunsigned]
  simp only [if_pos hlt]

/-! ## Patterns of digits -/

theorem digit_matches (before middle after : Text) :
    digit.Matches before middle after ↔ ∃ c, middle = [c] ∧ isDecimal c :=
  range_matches '0' '9' before middle after

theorem times_digit_matches (n : ℕ) (before middle after : Text) :
    (times n digit).Matches before middle after ↔
      middle.length = n ∧ ∀ d ∈ middle, isDecimal d := by
  unfold digit range
  rw [times_unit_matches]
  simp only [isDecimal, Bool.and_eq_true, decide_eq_true_eq, Char.reduceToNat]

theorem digits_matches (n : ℕ) (before middle after : Text) :
    (inOrder (List.replicate (n + 1) digit)).Matches before middle after ↔
      middle.length = n + 1 ∧ ∀ d ∈ middle, isDecimal d := by
  induction n generalizing before middle with
  | zero =>
      rw [List.replicate_one, inOrder, digit_matches]
      constructor
      · rintro ⟨c, rfl, hc⟩
        exact ⟨rfl, by simpa using hc⟩
      · rintro ⟨hlength, hall⟩
        obtain ⟨c, rfl⟩ := List.length_eq_one_iff.mp hlength
        exact ⟨c, rfl, hall c (by simp)⟩
  | succ n ih =>
      rw [List.replicate_succ, List.replicate_succ, inOrder, ← List.replicate_succ]
      · simp only [Pattern.Matches, ih, digit_matches]
        constructor
        · rintro ⟨_, rest, rfl, ⟨c, rfl, hc⟩, hlength, hrest⟩
          exact ⟨by simp [hlength], List.forall_mem_cons.mpr ⟨hc, hrest⟩⟩
        · rintro ⟨hlength, hall⟩
          cases middle with
          | nil => simp at hlength
          | cons c rest =>
              obtain ⟨hc, hrest⟩ := List.forall_mem_cons.mp hall
              exact ⟨[c], rest, rfl, ⟨c, rfl, hc⟩, by simpa using hlength, hrest⟩
      · simp

/-- One character of a class and then digits. -/
theorem class_digits_matches (low high : Char) (n : ℕ) (before middle after : Text) :
    (Pattern.seq (range low high) (inOrder (List.replicate (n + 1) digit))).Matches
        before middle after ↔
      ∃ c s, middle = c :: s ∧ (low.toNat ≤ c ∧ c ≤ high.toNat) ∧ s.length = n + 1 ∧
        ∀ d ∈ s, isDecimal d := by
  simp only [Pattern.Matches, range_matches, digits_matches]
  constructor
  · rintro ⟨_, s, rfl, ⟨c, rfl, hc⟩, hs⟩
    exact ⟨c, s, rfl, hc, hs⟩
  · rintro ⟨c, s, rfl, hc, hs⟩
    exact ⟨[c], s, rfl, ⟨c, rfl, hc⟩, hs⟩

end Numeral
