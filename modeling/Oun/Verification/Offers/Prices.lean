import Oun.Library.Numeral
import Oun.Verification.Roles.Preservation
import Oun.Verification.Winner.Single

/-! # The prices of the offers

The pattern of the price field is anchored at its end only, so that it looks for a price
at the end of the text and not for a text that is a price. -/

namespace Oun

open Firestore Regex Numeral Transition

/-- The canonical numeral of a price in the range that the field announces. -/
def IsPrice (value : Text) : Prop :=
  ∃ n, 50 ≤ n ∧ n ≤ 99999 ∧ value = numeral n

/-! ## What the validator accepts -/

/-- A price has two to five digits; of two digits the first one is at least 5. -/
theorem isPrice_iff (value : List ℕ) :
    IsPrice value ↔ ∃ (c : ℕ) (s : List ℕ), value = c :: s ∧ (49 ≤ c ∧ c ≤ 57) ∧
      (∀ d ∈ s, isDecimal d) ∧ (s.length = 1 ∧ 53 ≤ c ∨ 2 ≤ s.length ∧ s.length ≤ 4) := by
  constructor
  · rintro ⟨n, hlow, hhigh, rfl⟩
    obtain ⟨c, s, hshape, hc, hs⟩ := numeral_shape (n := n) (by omega)
    refine ⟨c, s, hshape, hc, hs, ?_⟩
    obtain ⟨m, -, hm, hlower, hupper⟩ := numeral_of_decimal hc hs
    obtain rfl : m = n := numeral_injective (hm.trans hshape.symm)
    by_cases hlong : 5 ≤ s.length
    · have hpower : 10 ^ 5 ≤ 10 ^ s.length := Nat.pow_le_pow_right (by decide) hlong
      have hleading : 10 ^ s.length ≤ (c - 48) * 10 ^ s.length :=
        Nat.le_mul_of_pos_left _ (by omega)
      omega
    · by_cases hshort : 2 ≤ s.length
      · exact .inr ⟨hshort, by omega⟩
      · obtain hlength | hlength : s.length = 0 ∨ s.length = 1 := by omega
        · rw [hlength] at hupper
          omega
        · rw [hlength] at hupper
          exact .inl ⟨hlength, by omega⟩
  · rintro ⟨c, s, rfl, hc, hs, hlength⟩
    obtain ⟨n, -, hn, hlower, hupper⟩ := numeral_of_decimal hc hs
    refine ⟨n, ?_, ?_, hn.symm⟩
    · rcases hlength with ⟨hlength, hfirst⟩ | ⟨hlength, -⟩
      · rw [hlength] at hlower
        omega
      · have hpower : 10 ^ 2 ≤ 10 ^ s.length := Nat.pow_le_pow_right (by decide) hlength
        have hleading : 10 ^ s.length ≤ (c - 48) * 10 ^ s.length :=
          Nat.le_mul_of_pos_left _ (by omega)
        omega
    · have hlength : s.length ≤ 4 := by omega
      have hpower : 10 ^ s.length ≤ 10 ^ 4 := Nat.pow_le_pow_right (by decide) hlength
      have hten : (c - 48 + 1) * 10 ^ s.length ≤ 10 * 10 ^ 4 :=
        Nat.mul_le_mul (by omega) hpower
      omega

/-- What the pattern has before its anchor. -/
def priceAlternatives : Pattern :=
  anyOf [
    inOrder [word ['1', '0'], digit],
    inOrder [char '1', range '1' '9', digit],
    inOrder [range '2' '9', digit, digit],
    inOrder [range '1' '9', digit, digit, digit],
    inOrder [range '1' '9', digit, digit, digit, digit],
    inOrder [range '5' '9', digit]]

/-- Three alternatives share the prices of three digits. -/
theorem threeDigits_match {before : Text} {c : ℕ} {s : List ℕ} (hc : 49 ≤ c ∧ c ≤ 57)
    (hs : ∀ d ∈ s, isDecimal d) (hlength : s.length = 2) :
    priceAlternatives.Matches before (c :: s) [] := by
  by_cases htwo : 50 ≤ c
  · right; right; left
    exact (class_digits_matches '2' '9' 1 ..).mpr ⟨c, s, rfl, ⟨htwo, hc.2⟩, hlength, hs⟩
  · obtain rfl : c = 49 := by omega
    obtain ⟨d, e, rfl⟩ := List.length_eq_two.mp hlength
    obtain ⟨hd, he⟩ : isDecimal d ∧ isDecimal e := ⟨hs d (by simp), hs e (by simp)⟩
    by_cases hzero : d = 48
    · subst hzero
      left
      exact ⟨[49, 48], [e], rfl, ⟨[49], [48], rfl, (char_matches ..).mpr rfl,
        (char_matches ..).mpr rfl⟩, (digit_matches ..).mpr ⟨e, rfl, he⟩⟩
    · right; left
      have hpositive : 49 ≤ d := by
        have := hd.1
        omega
      exact ⟨[49], [d, e], rfl, (char_matches ..).mpr rfl,
        (class_digits_matches '1' '9' 0 ..).mpr
          ⟨d, [e], rfl, ⟨hpositive, hd.2⟩, rfl, by simpa using he⟩⟩

/-- The six alternatives, each of which fixes a number of digits, together match the prices. -/
theorem alternatives_match (before s : List ℕ) :
    priceAlternatives.Matches before s [] ↔ IsPrice s := by
  rw [isPrice_iff]
  constructor
  · rintro (h | h | h | h | h | h)
    · simp only [inOrder, word, List.map_cons, List.map_nil, Pattern.Matches, char_matches,
        digit_matches] at h
      obtain ⟨_, _, rfl, ⟨_, _, rfl, rfl, rfl⟩, d, rfl, hd⟩ := h
      exact ⟨49, [48, d], rfl, by decide, by simpa [isDecimal] using hd, .inr (by simp)⟩
    · obtain ⟨_, _, rfl, hone, htail⟩ := h
      obtain rfl := (char_matches ..).mp hone
      obtain ⟨c, s, rfl, hc, hlength, hs⟩ := (class_digits_matches '1' '9' 0 ..).mp htail
      refine ⟨49, c :: s, rfl, by decide, ?_, .inr (by simp [hlength])⟩
      exact List.forall_mem_cons.mpr ⟨⟨Nat.le_of_succ_le hc.1, hc.2⟩, hs⟩
    · obtain ⟨c, s, rfl, hc, hlength, hs⟩ := (class_digits_matches '2' '9' 1 ..).mp h
      exact ⟨c, s, rfl, ⟨Nat.le_of_succ_le hc.1, hc.2⟩, hs, .inr (by omega)⟩
    · obtain ⟨c, s, rfl, hc, hlength, hs⟩ := (class_digits_matches '1' '9' 2 ..).mp h
      exact ⟨c, s, rfl, hc, hs, .inr (by omega)⟩
    · obtain ⟨c, s, rfl, hc, hlength, hs⟩ := (class_digits_matches '1' '9' 3 ..).mp h
      exact ⟨c, s, rfl, hc, hs, .inr (by omega)⟩
    · obtain ⟨c, s, rfl, hc, hlength, hs⟩ := (class_digits_matches '5' '9' 0 ..).mp h
      exact ⟨c, s, rfl, ⟨le_trans (by decide) hc.1, hc.2⟩, hs, .inl ⟨hlength, hc.1⟩⟩
  · rintro ⟨c, s, rfl, hc, hs, ⟨hlength, hfive⟩ | ⟨hlow, hhigh⟩⟩
    · iterate 5 right
      exact (class_digits_matches '5' '9' 0 ..).mpr ⟨c, s, rfl, ⟨hfive, hc.2⟩, hlength, hs⟩
    · obtain hlength | hlength | hlength : s.length = 2 ∨ s.length = 3 ∨ s.length = 4 := by omega
      · exact threeDigits_match hc hs hlength
      · iterate 3 right
        left
        exact (class_digits_matches '1' '9' 2 ..).mpr ⟨c, s, rfl, hc, hlength, hs⟩
      · iterate 4 right
        left
        exact (class_digits_matches '1' '9' 3 ..).mpr ⟨c, s, rfl, hc, hlength, hs⟩

/-- The validator looks for a price at the end of the text. -/
theorem priceValidator_eq_none_iff (value : List ℕ) :
    priceValidator value = none ↔ ∃ before s, value = before ++ s ∧ IsPrice s := by
  have hpattern : pricePattern.hasMatch value = true ↔
      ∃ before s, value = before ++ s ∧ IsPrice s := by
    have hanchor : pricePattern = inOrder [priceAlternatives, .lineEnd] := rfl
    simp only [hanchor, endAnchored_hasMatch, alternatives_match]
  rw [← hpattern]
  exact required_eq_none_iff (by decide +kernel) value

/-! ## Where the validator is right -/

instance : DecidablePred IsPrice
  | [] => .isFalse fun h => by
      obtain ⟨c, s, hnil, -⟩ := (isPrice_iff []).mp h
      cases hnil
  | c :: s => decidable_of_iff ((49 ≤ c ∧ c ≤ 57) ∧ (∀ d ∈ s, isDecimal d) ∧
      (s.length = 1 ∧ 53 ≤ c ∨ 2 ≤ s.length ∧ s.length ≤ 4)) (by simp [isPrice_iff])

/-- At most five digits of which the first is not a zero, or no price at the end. -/
def Clear (value : List ℕ) : Prop :=
  (value.length ≤ 5 ∧ value.head? ≠ some 48 ∧ ∀ d ∈ value, isDecimal d) ∨
    ∀ s ∈ value.tails, ¬ IsPrice s

instance (value : List ℕ) : Decidable (Clear value) := by
  unfold Clear; infer_instance

/-- Digits that end in a price are a price if they are few and do not start with a zero. -/
theorem isPrice_of_suffix {before s : List ℕ} (hs : IsPrice s)
    (hlength : (before ++ s).length ≤ 5) (hfirst : (before ++ s).head? ≠ some 48)
    (hdigits : ∀ d ∈ before ++ s, isDecimal d) : IsPrice (before ++ s) := by
  cases before with
  | nil => exact hs
  | cons c before =>
      obtain ⟨e, tail, rfl, -, -, htail⟩ := (isPrice_iff s).mp hs
      obtain ⟨⟨hlow, hhigh⟩, hrest⟩ := List.forall_mem_cons.mp hdigits
      have hpositive : c ≠ 48 := by simpa using hfirst
      refine (isPrice_iff _).mpr ⟨c, before ++ e :: tail, rfl, ⟨by omega, hhigh⟩, hrest, .inr ?_⟩
      simp only [List.cons_append, List.length_cons, List.length_append] at hlength ⊢
      omega

theorem priceValidator_right_iff (value : List ℕ) :
    (priceValidator value = none ↔ IsPrice value) ↔ Clear value := by
  rw [priceValidator_eq_none_iff]
  constructor
  · intro hright
    by_cases hprice : IsPrice value
    · obtain ⟨c, s, rfl, ⟨hlow, hhigh⟩, hs, hlength⟩ := (isPrice_iff value).mp hprice
      refine .inl ⟨?_, ?_, List.forall_mem_cons.mpr ⟨⟨by omega, hhigh⟩, hs⟩⟩
      · rw [List.length_cons]
        omega
      · rw [List.head?_cons, ne_eq, Option.some.injEq]
        omega
    · refine .inr fun s hs hend => hprice (hright.mp ?_)
      obtain ⟨before, rfl⟩ := (List.mem_tails s value).mp hs
      exact ⟨before, s, rfl, hend⟩
  · rintro (⟨hlength, hfirst, hdigits⟩ | hnone)
    · constructor
      · rintro ⟨before, s, rfl, hs⟩
        exact isPrice_of_suffix hs hlength hfirst hdigits
      · exact fun h => ⟨[], value, rfl, h⟩
    · constructor
      · rintro ⟨before, s, rfl, hs⟩
        exact absurd hs (hnone s ((List.mem_tails s _).mpr ⟨before, rfl⟩))
      · exact fun h => ⟨[], value, rfl, h⟩

/-! ## Stored offers -/

/-- The text that is in the price field when ADD is pressed. -/
def Action.price? : Action → Option Text
  | .process _ (.add price) => some price
  | _ => none

/-- If ADD is pressed in this action, the price field is clear. -/
def ClearPrice (_ : World) (a : Action) : Prop :=
  ∀ price ∈ a.price?, Clear price

instance (w : World) (a : Action) : Decidable (ClearPrice w a) := by
  unfold ClearPrice; infer_instance

/-- The call stores an offer whose price is none. -/
def mispriced : Call → Bool :=
  Call.onOffer fun o => !decide (IsPrice o.price)

/-- A step that meets the condition issues no offer without a price. -/
theorem issues_priced {w : World} {a : Action} (h : Enabled w a) (hclear : ClearPrice w a) :
    (issues w a).countP mispriced = 0 := by
  have hissues := issues_inversion h
  generalize issues w a = calls at hissues
  cases hissues with
  | nothing => rfl
  | newTask => rfl
  | @process k uid handler input hget henabled hreads =>
      have hmoves := moves uid henabled
      generalize handler.issued uid input = calls at hmoves ⊢
      generalize handler.next uid input = next at hmoves
      rw [List.countP_eq_zero]
      intro c hc hmispriced
      obtain ⟨o, hwrite, ho⟩ := Call.onOffer_iff.mp hmispriced
      cases hmoves with
      | offer furniture price hprice =>
          have hvalid : IsPrice price :=
            ((priceValidator_right_iff price).mpr (hclear price rfl)).mp hprice
          simp only [addOffer, List.mem_cons, List.not_mem_nil, or_false] at hc
          rcases hc with rfl | rfl
          · cases hwrite
            simp [hvalid] at ho
          · cases hwrite
      | accept taskId item documents hdocuments =>
          obtain ⟨d, -, ⟨-, rfl | rfl⟩ | ⟨-, rfl⟩⟩ := mem_accept.mp hc <;> cases hwrite
      | reject _ _ | report _ _ | rate _ _ _ _ _ =>
          simp only [reject, report, rate, List.mem_cons, List.not_mem_nil, or_false] at hc
          rcases hc with rfl | rfl <;> cases hwrite
      | _ => cases hc

/-- Every offer in the store has been written by an offer call. -/
theorem stored_priced {w : World} (hw : Reachable app w) (hnone : w.issued mispriced = 0) :
    ∀ d ∈ w.store.offers.docs, IsPrice d.data.price := by
  intro d hd
  obtain ⟨e, he, hwrite, -⟩ := (provenance hw).offers d hd
  by_contra hprice
  have hmispriced : mispriced e.call = true :=
    Call.onOffer_iff.mpr ⟨d.data, hwrite, by simp [hprice]⟩
  have hpos := issued_pos.mpr (.inl ⟨e, he, hmispriced⟩)
  omega

/-- The validator is right on a text exactly if it is clear, and in every run in which ADD is
only pressed on clear texts, every offer stored has a price. -/
theorem offer_price_iff_clear (value : Text) :
    ((priceValidator value = none ↔ IsPrice value) ↔ Clear value) ∧
      ∀ trace w, Run app World.init trace w → Meets ClearPrice trace →
        ∀ u ∈ visited trace w, ∀ d ∈ u.store.offers.docs, IsPrice d.data.price := by
  refine ⟨priceValidator_right_iff value, fun trace w run hclear u hu => ?_⟩
  obtain ⟨front, back, rfl, hfront, -⟩ := run.split_visited hu
  rw [meets_append] at hclear
  refine stored_priced ⟨front, hfront⟩ ?_
  refine hfront.invariant (I := fun v => v.issued mispriced = 0) hclear.1 rfl ?_
  intro v a hv ha hCa
  show (perform v a).issued mispriced = 0
  rw [issued_perform ha, hv, issues_priced ha hCa]

namespace Scenario

def negative : Text := text ['-', '5', '0']

def offeredNegative : List Action :=
  posted ++ visit 2 0 [] ++ submit 0 1 [] negative ++ [.write 1]

end Scenario

theorem offer_price_offered :
    Meets ClearPrice (app.steps app.init Scenario.offered) ∧
      ∀ u ∈ visited (app.steps app.init Scenario.offered) (app.final app.init Scenario.offered),
        ∀ d ∈ u.store.offers.docs, IsPrice d.data.price :=
  have hclear : Meets ClearPrice (app.steps app.init Scenario.offered) := by decide +kernel
  ⟨hclear, (offer_price_iff_clear []).2 _ _ (app.run_steps _ Scenario.offered (by decide +kernel))
    hclear⟩

/-- A negative price is accepted and stored. -/
theorem negative_price_stored :
    (¬ ∀ value, priceValidator value = none ↔ IsPrice value) ∧
      ¬ ∀ w, Reachable app w → ∀ d ∈ w.store.offers.docs, IsPrice d.data.price := by
  constructor
  · intro h
    exact absurd ((h Scenario.negative).mp (by decide)) (by decide)
  · intro h
    have hstored : ⟨0, ⟨0, 2, 1, Scenario.negative⟩⟩ ∈
        (app.final app.init Scenario.offeredNegative).store.offers.docs := by
      decide +kernel
    exact absurd (h _ ⟨_, app.run_steps _ Scenario.offeredNegative (by decide +kernel)⟩ _ hstored)
      (by decide)

end Oun
