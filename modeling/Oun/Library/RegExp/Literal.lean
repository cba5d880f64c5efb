import Oun.Library.RegExp.Parser

/-! # Literal texts

A text without metacharacters, written between two `\b`, is a regular expression that finds
the text itself, up to case, wherever both of its ends are boundaries of ASCII words. -/

namespace RegExp

open Regex Numeral

def boundary : Text := text ['\\', 'b']

/-- `^ $ \ . * + ? ( ) [ |` -/
def metacharacters : List CodeUnit := text ['^', '$', '\\', '.', '*', '+', '?', '(', ')', '[', '|']

/-- Every unit stands for itself. A brace does unless it opens a counted quantifier. -/
def isLiteral : Text → Bool
  | [] => true
  | c :: s => !metacharacters.contains c && (c != 123 || (braces s).isNone) && isLiteral s

/-- Exactly one of the two neighbours is a letter, a digit or an underscore of ASCII. -/
def AtBoundary (before after : Text) : Prop :=
  before.getLast?.any isWord ≠ after.head?.any isWord

/-- The node that is read: the terms in order, up to the second boundary. -/
def literal (q : Text) : Node :=
  q.foldr (fun c r => .seq (unit c) r) (.seq (.boundary false) .empty)

/-! ## Braces -/

theorem takeWhile_append {p : CodeUnit → Bool} {c : CodeUnit} (hc : p c = false) (s t : Text) :
    (s ++ c :: t).takeWhile p = s.takeWhile p := by
  induction s with
  | nil => simp [hc]
  | cons d s ih =>
      simp only [List.cons_append, List.takeWhile_cons]
      split
      · rw [ih]
      · rfl

/-- A number ends where something else follows. -/
theorem number_append {c : CodeUnit} (hc : isDigit c = false) (s t : Text) :
    number (s ++ c :: t) = ((number s).1, (number s).2 ++ c :: t) := by
  have hlength : (s.takeWhile isDigit).length ≤ s.length := (List.takeWhile_prefix _).length_le
  simp only [number, takeWhile_append hc, List.drop_append_of_le_length hlength]

/-- A quantifier that is not complete is not completed by a backslash. -/
theorem braces_append {s : Text} (h : braces s = none) (t : Text) :
    braces (s ++ 92 :: t) = none := by
  rw [braces] at h ⊢
  rw [number_append (by decide)]
  generalize number s = read at h ⊢
  match read with
  | (none, _) => rfl
  | (some min, []) => rfl
  | (some min, c :: rest) =>
      by_cases hclose : c = 125
      · subst hclose
        cases h
      · by_cases hcomma : c = 44
        · subst hcomma
          simp only [List.cons_append] at h ⊢
          rw [number_append (by decide)]
          generalize number rest = read at h ⊢
          match read with
          | (max, []) => rfl
          | (max, d :: rest) =>
              have hopen : d ≠ 125 := by
                rintro rfl
                cases h
              simp [hopen]
        · simp [hclose, hcomma]

/-! ## Tokens -/

section Unicode

variable (unicode : Unicode) (groups : List (Option Text))

/-- There is no group in a text that is literal up to its final `\b`. -/
theorem captureGroups_literal {q : Text} (h : isLiteral q = true) (inClass : Bool) :
    captureGroups unicode inClass (q ++ boundary) = [] := by
  induction q generalizing inClass with
  | nil => rfl
  | cons c q ih =>
      simp only [isLiteral, Bool.and_eq_true, Bool.not_eq_true', List.contains_eq_mem,
        decide_eq_false_iff_not] at h
      obtain ⟨⟨hc, -⟩, hq⟩ := h
      have hopen : c ≠ 40 := by
        rintro rfl
        exact hc (by decide)
      have hescape : c ≠ 92 := by
        rintro rfl
        exact hc (by decide)
      rw [List.cons_append, captureGroups, if_neg (fun h => hopen h.1), ih hq]
      rintro _ _ rfl
      exact absurd rfl hescape

theorem lexeme_literal {c : CodeUnit} {s : Text} (hc : c ∉ metacharacters)
    (hbrace : c = 123 → braces s = none) :
    lexeme unicode groups c s = some (.term (unit c) true, s) := by
  unfold lexeme
  split
  case h_12 => rw [hbrace rfl]
  case h_13 => rfl
  all_goals exact absurd (by decide) hc

theorem tokens_boundary (s : Text) :
    tokens unicode groups 0 (boundary ++ s) =
      (tokens unicode groups 0 s).map (.term (.boundary false) false :: ·) := by
  have hlexeme : lexeme unicode groups 92 (98 :: s) = some (.term (.boundary false) false, s) :=
    rfl
  have hskip : (98 :: s).length - s.length = 1 := by
    rw [List.length_cons]
    omega
  show tokens unicode groups 0 (92 :: 98 :: s) = _
  rw [tokens, hlexeme]
  simp only [hskip, tokens]

theorem tokens_literal {q : Text} (h : isLiteral q = true) :
    tokens unicode groups 0 (q ++ boundary) =
      some (q.map (fun c => .term (unit c) true) ++ [.term (.boundary false) false]) := by
  induction q with
  | nil => rfl
  | cons c q ih =>
      simp only [isLiteral, Bool.and_eq_true, Bool.not_eq_true', List.contains_eq_mem,
        decide_eq_false_iff_not, Bool.or_eq_true, bne_iff_ne, Option.isNone_iff_eq_none] at h
      obtain ⟨⟨hc, hbrace⟩, hq⟩ := h
      have hnone : c = 123 → braces (q ++ boundary) = none := by
        intro heq
        exact braces_append (hbrace.resolve_left (absurd heq)) _
      rw [List.cons_append, tokens, lexeme_literal unicode groups hc hnone]
      simp only [Nat.sub_self, ih hq, Option.map_some, List.map_cons, List.cons_append]

end Unicode

/-! ## The syntax tree -/

/-- Terms are added to the group that is open. -/
theorem foldlM_terms (terms : List (Node × Bool)) (b : Builder) :
    ∃ quantifiable, (terms.map fun t => Token.term t.1 t.2).foldlM Builder.step b = some { b with
      frame := { b.frame with terms := (terms.map Prod.fst).reverse ++ b.frame.terms }
      quantifiable } := by
  induction terms generalizing b with
  | nil => exact ⟨b.quantifiable, rfl⟩
  | cons t terms ih =>
      obtain ⟨quantifiable, hrest⟩ := ih { b with
        frame := { b.frame with terms := t.1 :: b.frame.terms }, quantifiable := t.2 }
      refine ⟨quantifiable, ?_⟩
      rw [List.map_cons, List.foldlM_cons]
      simpa only [Builder.step, Option.bind_eq_bind, Option.bind_some, List.map_cons,
        List.reverse_cons, List.append_assoc, List.singleton_append] using hrest

theorem parse_literal (unicode : Unicode) {q : Text} (h : isLiteral q = true) :
    parse unicode (boundary ++ q ++ boundary) = some (.seq (.boundary false) (literal q)) := by
  let terms : List (Node × Bool) :=
    (.boundary false, false) :: (q.map (fun c => (unit c, true)) ++ [(.boundary false, false)])
  have hgroups : captureGroups unicode false (boundary ++ q ++ boundary) = [] :=
    captureGroups_literal unicode h false
  have htokens : tokens unicode [] 0 (boundary ++ q ++ boundary) =
      some (terms.map fun t => Token.term t.1 t.2) := by
    rw [List.append_assoc, tokens_boundary, tokens_literal unicode [] h]
    simp [terms]
  obtain ⟨quantifiable, hterms⟩ := foldlM_terms terms .start
  simp only [parse, hgroups, htokens, Option.bind_some, hterms]
  simp [terms, Builder.start, Frame.node, literal, List.foldl_append, List.foldr_map]

/-! ## Canonical forms -/

section Canonical

variable (unicode : Unicode)

theorem isWord_iff (c : ℕ) : isWord c = true ↔
    (48 ≤ c ∧ c ≤ 57) ∨ (65 ≤ c ∧ c ≤ 90) ∨ (97 ≤ c ∧ c ≤ 122) ∨ c = 95 := by
  simp [isWord, or_assoc]

theorem isWord_of_le {c : ℕ} (h : 128 ≤ c) : isWord c = false := by
  rw [Bool.eq_false_iff, Ne, isWord_iff]
  omega

theorem canonicalize_of_lt {c : ℕ} (h : c < 128) :
    unicode.canonicalize c = if 97 ≤ c ∧ c ≤ 122 then c - 32 else c :=
  if_pos h

theorem canonicalize_of_le {c : ℕ} (h : 128 ≤ c) : 128 ≤ unicode.canonicalize c := by
  unfold Unicode.canonicalize
  rw [if_neg (Nat.not_lt.mpr h)]
  split
  · split
    · exact h
    · exact Nat.not_lt.mp ‹_›
  · exact h

/-- A unit is a letter, digit or underscore of ASCII exactly if its canonical form is. -/
theorem isWord_canonicalize (c : ℕ) : isWord (unicode.canonicalize c) = isWord c := by
  by_cases hc : c < 128
  · rw [canonicalize_of_lt unicode hc]
    split
    · rw [Bool.eq_iff_iff, isWord_iff, isWord_iff]
      omega
    · rfl
  · have hle : 128 ≤ c := Nat.not_lt.mp hc
    rw [isWord_of_le (canonicalize_of_le unicode hle), isWord_of_le hle]

theorem any_isWord_of_canonicalize {c d : Option ℕ}
    (h : c.map unicode.canonicalize = d.map unicode.canonicalize) :
    c.any isWord = d.any isWord := by
  have hany : ∀ o : Option ℕ, o.any isWord = (o.map unicode.canonicalize).any isWord := by
    intro o
    cases o with
    | none => rfl
    | some c => exact (isWord_canonicalize unicode c).symm
  rw [hany c, hany d, h]

end Canonical

/-! ## What is found -/

section Canonicalize

variable (canonicalize : CodeUnit → CodeUnit)

/-- The pattern of the node. -/
def literalPattern (q : Text) : Pattern :=
  q.foldr (fun c p => .seq (.unit (contains canonicalize [(c, c)])) p) (.seq .wordBoundary .empty)

theorem literal_agrees (q : Text) :
    (literal q).Agrees canonicalize (literalPattern canonicalize q) := by
  induction q with
  | nil => exact .seq .boundary .empty
  | cons c q ih => exact .seq (.unit [(c, c)]) ih

theorem contains_unit (c d : CodeUnit) :
    contains canonicalize [(c, c)] d = true ↔ canonicalize d = canonicalize c := by
  have hrange : List.range' c (c + 1 - c) = [c] := by
    rw [Nat.add_sub_cancel_left]
    rfl
  simp only [contains, List.any_cons, List.any_nil, Bool.or_false, hrange, beq_iff_eq]
  exact eq_comm

theorem literalPattern_matches (q before middle after : Text) :
    (literalPattern canonicalize q).Matches before middle after ↔
      middle.map canonicalize = q.map canonicalize ∧ AtBoundary (before ++ middle) after := by
  induction q generalizing before middle with
  | nil =>
      simp only [literalPattern, List.foldr_nil, Pattern.Matches, List.map_nil, List.map_eq_nil_iff]
      constructor
      · rintro ⟨_, _, rfl, ⟨rfl, hboundary⟩, rfl⟩
        exact ⟨rfl, by rwa [← List.append_nil before] at hboundary⟩
      · rintro ⟨rfl, hboundary⟩
        exact ⟨[], [], rfl, ⟨rfl, by rwa [List.append_nil] at hboundary⟩, rfl⟩
  | cons c q ih =>
      have hcons : literalPattern canonicalize (c :: q) =
          .seq (.unit (contains canonicalize [(c, c)])) (literalPattern canonicalize q) := rfl
      simp only [hcons, Pattern.Matches, ih, contains_unit, List.map_cons]
      constructor
      · rintro ⟨_, second, rfl, ⟨d, rfl, hd⟩, hsecond, hboundary⟩
        exact ⟨by simp [hd, hsecond], by simpa using hboundary⟩
      · rintro ⟨hmap, hboundary⟩
        obtain ⟨d, second, rfl, hd, hsecond⟩ := List.map_eq_cons_iff.mp hmap
        exact ⟨[d], second, rfl, ⟨d, rfl, hd⟩, hsecond, by simpa using hboundary⟩

/-- The text is found where it stands between two boundaries. -/
theorem literal_hasMatch (q s : Text) :
    (Node.seq (.boundary false) (literal q)).hasMatch canonicalize s = true ↔
      ∃ before middle after, s = before ++ (middle ++ after) ∧
        middle.map canonicalize = q.map canonicalize ∧
        AtBoundary before (middle ++ after) ∧ AtBoundary (before ++ middle) after := by
  have hagrees := Node.Agrees.seq .boundary (literal_agrees canonicalize q)
  rw [hagrees.hasMatch_eq, Pattern.hasMatch_iff]
  simp only [Pattern.Matches, literalPattern_matches]
  constructor
  · rintro ⟨before, _, after, rfl, _, second, rfl, ⟨rfl, hfirst⟩, hmap, hlast⟩
    exact ⟨before, second, after, rfl, hmap, hfirst, by simpa using hlast⟩
  · rintro ⟨before, middle, after, rfl, hmap, hfirst, hlast⟩
    exact ⟨before, middle, after, rfl, [], middle, rfl, ⟨rfl, hfirst⟩, hmap, by simpa using hlast⟩

end Canonicalize

end RegExp
