import Mathlib.Data.List.Basic

/-! # Regular expressions over code units

Patterns with the ECMAScript constructs without back references and look-around: what
they match is given by a relation between a stretch of text and the text around it, and
by a backtracking matcher that computes the same. -/

namespace Regex

/-- A code unit of a string, that is, what `length` counts. -/
abbrev CodeUnit := ℕ

abbrev Text := List CodeUnit

/-- Text written with characters of the basic plane. -/
def text (chars : List Char) : Text := chars.map Char.toNat

inductive Pattern where
  | empty
  | unit (p : CodeUnit → Bool)
  | seq (r s : Pattern)
  | alt (r s : Pattern)
  | star (r : Pattern)
  | lineStart
  | lineEnd
  | wordBoundary

def isWord (c : CodeUnit) : Bool :=
  (48 ≤ c && c ≤ 57) || (65 ≤ c && c ≤ 90) || (97 ≤ c && c ≤ 122) || c == 95

/-! ## What a pattern matches -/

/-- Iterations of `R`; an iteration that would match nothing is not taken. -/
inductive Iterated (R : Text → Text → Text → Prop) : Text → Text → Text → Prop where
  | nil (before after) : Iterated R before [] after
  | cons {before middle rest after} : middle ≠ [] → R before middle (rest ++ after) →
      Iterated R (before ++ middle) rest after → Iterated R before (middle ++ rest) after

/-- `r.Matches before middle after`: in the text `before ++ middle ++ after` the pattern
can match exactly `middle`. -/
def Pattern.Matches : Pattern → Text → Text → Text → Prop
  | empty, _, middle, _ => middle = []
  | unit p, _, middle, _ => ∃ c, middle = [c] ∧ p c = true
  | seq r s, before, middle, after => ∃ first second, middle = first ++ second ∧
      r.Matches before first (second ++ after) ∧ s.Matches (before ++ first) second after
  | alt r s, before, middle, after =>
      r.Matches before middle after ∨ s.Matches before middle after
  | star r, before, middle, after => Iterated r.Matches before middle after
  | lineStart, before, middle, _ => middle = [] ∧ before = []
  | lineEnd, _, middle, after => middle = [] ∧ after = []
  | wordBoundary, before, middle, after => middle = [] ∧
      before.getLast?.any isWord ≠ after.head?.any isWord

/-! ## The matcher -/

/-- A position in a text: what lies before it, read backwards, and what lies after. -/
abbrev Position := Text × Text

/-- Repeats `f` as long as it makes progress, at most `fuel` times. -/
def iterate (f : Position → List Position) : ℕ → Position → List Position
  | 0, pos => [pos]
  | fuel + 1, pos => pos :: ((f pos).filter (fun next => next.2.length < pos.2.length)).flatMap
      (iterate f fuel)

/-- The positions at which a match that starts at the given position can end. -/
def Pattern.run : Pattern → Position → List Position
  | empty, pos => [pos]
  | unit p, (back, c :: after) => if p c then [(c :: back, after)] else []
  | unit _, (_, []) => []
  | seq r s, pos => (r.run pos).flatMap s.run
  | alt r s, pos => r.run pos ++ s.run pos
  | star r, pos => iterate r.run pos.2.length pos
  | lineStart, pos => if pos.1 = [] then [pos] else []
  | lineEnd, pos => if pos.2 = [] then [pos] else []
  | wordBoundary, pos => if pos.1.head?.any isWord ≠ pos.2.head?.any isWord then [pos] else []

def positions : Text → Text → List Position
  | back, [] => [(back, [])]
  | back, c :: after => (back, c :: after) :: positions (c :: back) after

/-- `hasMatch`: some stretch of the text matches. -/
def Pattern.hasMatch (r : Pattern) (s : Text) : Bool :=
  (positions [] s).any fun pos => !(r.run pos).isEmpty

/-! ## The matcher computes what the pattern matches -/

/-- A run from `(before.reverse, rest)` ends where a match of `r` ends. -/
def RunSpec (R : Text → Text → Text → Prop) (f : Position → List Position) : Prop :=
  ∀ back rest back' rest', (back', rest') ∈ f (back, rest) ↔
    ∃ middle, rest = middle ++ rest' ∧ back' = middle.reverse ++ back ∧
      R back.reverse middle rest'

theorem iterate_spec {R : Text → Text → Text → Prop} {f : Position → List Position}
    (hf : RunSpec R f) (fuel : ℕ) (back rest back' rest' : Text) (hfuel : rest.length ≤ fuel) :
    (back', rest') ∈ iterate f fuel (back, rest) ↔
      ∃ middle, rest = middle ++ rest' ∧ back' = middle.reverse ++ back ∧
        Iterated R back.reverse middle rest' := by
  induction fuel generalizing back rest with
  | zero =>
      obtain rfl : rest = [] := List.length_eq_zero_iff.mp (Nat.le_zero.mp hfuel)
      simp only [iterate, List.mem_singleton, Prod.mk.injEq]
      constructor
      · rintro ⟨rfl, rfl⟩
        exact ⟨[], rfl, rfl, .nil _ _⟩
      · rintro ⟨middle, hrest, rfl, -⟩
        obtain ⟨rfl, rfl⟩ := List.append_eq_nil_iff.mp hrest.symm
        exact ⟨rfl, rfl⟩
  | succ fuel ih =>
      simp only [iterate, List.mem_cons, List.mem_flatMap, List.mem_filter, Prod.mk.injEq,
        Prod.exists, decide_eq_true_eq]
      constructor
      · rintro (⟨rfl, rfl⟩ | ⟨back₁, rest₁, ⟨hmem, hlt⟩, hnext⟩)
        · exact ⟨[], rfl, rfl, .nil _ _⟩
        · obtain ⟨first, rfl, rfl, hfirst⟩ := (hf ..).mp hmem
          obtain ⟨second, rfl, rfl, hsecond⟩ := (ih _ _ (by omega)).mp hnext
          refine ⟨first ++ second, by simp, by simp, .cons ?_ hfirst ?_⟩
          · rintro rfl
            simp at hlt
          · simpa using hsecond
      · rintro ⟨middle, rfl, rfl, hmiddle⟩
        cases hmiddle with
        | nil => exact .inl ⟨rfl, rfl⟩
        | @cons _ first second _ hne hfirst hsecond =>
            have hpos : 0 < first.length := List.length_pos_iff.mpr hne
            refine .inr ⟨first.reverse ++ back, second ++ rest', ⟨?_, ?_⟩, ?_⟩
            · exact (hf ..).mpr ⟨first, by simp, rfl, hfirst⟩
            · simp only [List.length_append]
              omega
            · refine (ih _ _ ?_).mpr ⟨second, rfl, by simp, by simpa using hsecond⟩
              simp only [List.length_append] at hfuel ⊢
              omega

/-- A pattern that matches nothing but looks around. -/
theorem assertion_spec {P : Text → Text → Prop} {f : Position → List Position}
    (hP : ∀ back rest, P back.reverse rest → f (back, rest) = [(back, rest)])
    (hnot : ∀ back rest, ¬ P back.reverse rest → f (back, rest) = []) :
    RunSpec (fun before middle after => middle = [] ∧ P before after) f := by
  intro back rest back' rest'
  by_cases h : P back.reverse rest
  · rw [hP back rest h, List.mem_singleton, Prod.mk.injEq]
    constructor
    · rintro ⟨rfl, rfl⟩
      exact ⟨[], rfl, rfl, rfl, h⟩
    · rintro ⟨_, rfl, rfl, rfl, -⟩
      exact ⟨rfl, rfl⟩
  · rw [hnot back rest h]
    simp only [List.not_mem_nil, false_iff]
    rintro ⟨_, rfl, -, rfl, hnext⟩
    exact h hnext

theorem Pattern.run_spec (r : Pattern) : RunSpec r.Matches r.run := by
  induction r with
  | empty =>
      intro back rest back' rest'
      simp only [run, Matches, List.mem_singleton, Prod.mk.injEq]
      constructor
      · rintro ⟨rfl, rfl⟩
        exact ⟨[], rfl, rfl, rfl⟩
      · rintro ⟨_, rfl, rfl, rfl⟩
        exact ⟨rfl, rfl⟩
  | unit p =>
      intro back rest back' rest'
      cases rest with
      | nil => simp [run, Matches]
      | cons c rest =>
          simp only [run, Matches]
          split
          · rename_i hc
            simp only [List.mem_singleton, Prod.mk.injEq]
            constructor
            · rintro ⟨rfl, rfl⟩
              exact ⟨[c], rfl, rfl, c, rfl, hc⟩
            · rintro ⟨_, hrest, rfl, d, rfl, -⟩
              obtain ⟨rfl, rfl⟩ := List.cons.inj hrest
              exact ⟨rfl, rfl⟩
          · rename_i hc
            simp only [List.not_mem_nil, false_iff]
            rintro ⟨_, hrest, -, d, rfl, hd⟩
            obtain ⟨rfl, -⟩ := List.cons.inj hrest
            exact hc hd
  | seq r s ihr ihs =>
      intro back rest back' rest'
      simp only [run, Matches, List.mem_flatMap, Prod.exists]
      constructor
      · rintro ⟨back₁, rest₁, hmem, hnext⟩
        obtain ⟨first, rfl, rfl, hfirst⟩ := (ihr ..).mp hmem
        obtain ⟨second, rfl, rfl, hsecond⟩ := (ihs ..).mp hnext
        exact ⟨first ++ second, by simp, by simp, first, second, rfl, hfirst,
          by simpa using hsecond⟩
      · rintro ⟨_, rfl, rfl, first, second, rfl, hfirst, hsecond⟩
        refine ⟨first.reverse ++ back, second ++ rest', ?_, ?_⟩
        · exact (ihr ..).mpr ⟨first, by simp, rfl, hfirst⟩
        · exact (ihs ..).mpr ⟨second, rfl, by simp, by simpa using hsecond⟩
  | alt r s ihr ihs =>
      intro back rest back' rest'
      simp only [run, Matches, List.mem_append, ihr back rest back' rest',
        ihs back rest back' rest', ← exists_or, ← and_or_left]
  | star r ih =>
      intro back rest back' rest'
      exact iterate_spec ih _ back rest back' rest' (Nat.le_refl _)
  | lineStart =>
      refine assertion_spec (P := fun before _ => before = []) ?_ ?_ <;> intro back rest h
      · simp [run, List.reverse_eq_nil_iff.mp h]
      · simp [run, mt List.reverse_eq_nil_iff.mpr h]
  | lineEnd =>
      refine assertion_spec (P := fun _ after => after = []) ?_ ?_ <;> intro back rest h
      · simp [run, h]
      · simp [run, h]
  | wordBoundary =>
      refine assertion_spec
        (P := fun before after => before.getLast?.any isWord ≠ after.head?.any isWord) ?_ ?_ <;>
        intro back rest h <;> rw [List.getLast?_reverse] at h
      · exact if_pos h
      · exact if_neg h

theorem mem_positions (back rest back' rest' : Text) :
    (back', rest') ∈ positions back rest ↔
      ∃ before, rest = before ++ rest' ∧ back' = before.reverse ++ back := by
  induction rest generalizing back with
  | nil =>
      simp only [positions, List.mem_singleton, Prod.mk.injEq]
      constructor
      · rintro ⟨rfl, rfl⟩
        exact ⟨[], rfl, rfl⟩
      · rintro ⟨before, hrest, rfl⟩
        obtain ⟨rfl, rfl⟩ := List.append_eq_nil_iff.mp hrest.symm
        exact ⟨rfl, rfl⟩
  | cons c rest ih =>
      simp only [positions, List.mem_cons, Prod.mk.injEq, ih]
      constructor
      · rintro (⟨rfl, rfl⟩ | ⟨before, rfl, rfl⟩)
        · exact ⟨[], rfl, rfl⟩
        · exact ⟨c :: before, rfl, by simp⟩
      · rintro ⟨before, hrest, rfl⟩
        cases before with
        | nil => exact .inl ⟨rfl, hrest.symm⟩
        | cons d before =>
            obtain ⟨rfl, rfl⟩ := List.cons.inj hrest
            exact .inr ⟨before, rfl, by simp⟩

/-- `hasMatch` finds a match wherever it lies in the text. -/
theorem Pattern.hasMatch_iff (r : Pattern) (s : Text) :
    r.hasMatch s = true ↔
      ∃ before middle after, s = before ++ (middle ++ after) ∧ r.Matches before middle after := by
  simp only [hasMatch, List.any_eq_true, Prod.exists, Bool.not_eq_true',
    List.isEmpty_eq_false_iff_exists_mem]
  constructor
  · rintro ⟨back, rest, hpos, back', rest', hrun⟩
    obtain ⟨before, rfl, rfl⟩ := (mem_positions ..).mp hpos
    obtain ⟨middle, rfl, -, hmatches⟩ := (r.run_spec ..).mp hrun
    exact ⟨before, middle, rest', rfl, by simpa using hmatches⟩
  · rintro ⟨before, middle, after, rfl, hmatches⟩
    refine ⟨before.reverse, middle ++ after, ?_, middle.reverse ++ before.reverse, after, ?_⟩
    · exact (mem_positions ..).mpr ⟨before, rfl, by simp⟩
    · exact (r.run_spec ..).mpr ⟨middle, rfl, rfl, by simpa using hmatches⟩

/-! ## Derived patterns -/

def char (c : Char) : Pattern := .unit fun u => u == c.toNat

/-- The class of the code units from `low` to `high`. -/
def range (low high : Char) : Pattern :=
  .unit fun u => low.toNat ≤ u && u ≤ high.toNat

def digit : Pattern := range '0' '9'

def oneOf (chars : List Char) : Pattern := .unit fun u => (text chars).contains u

/-- `\s`. -/
def isSpace (c : CodeUnit) : Bool :=
  (9 ≤ c && c ≤ 13) || (8192 ≤ c && c ≤ 8202) ||
    [32, 160, 5760, 8232, 8233, 8239, 8287, 12288, 65279].contains c

/-- `.`: every code unit but the line terminators. -/
def dot : Pattern := .unit fun u => !([10, 13, 8232, 8233].contains u)

/-- `r{n}`. -/
def times : ℕ → Pattern → Pattern
  | 0, _ => .empty
  | n + 1, r => .seq r (times n r)

/-- `r+`. -/
def plus (r : Pattern) : Pattern := .seq r (.star r)

/-- `r{m,}`. -/
def atLeast (m : ℕ) (r : Pattern) : Pattern := .seq (times m r) (.star r)

/-- At most `n` times `r`. -/
def upTo : ℕ → Pattern → Pattern
  | 0, _ => .empty
  | n + 1, r => .alt (.seq r (upTo n r)) .empty

/-- `r{m,n}`. -/
def between (m n : ℕ) (r : Pattern) : Pattern := .seq (times m r) (upTo (n - m) r)

/-- The alternatives in order; no alternatives match nothing. -/
def anyOf : List Pattern → Pattern
  | [] => .unit fun _ => false
  | [r] => r
  | r :: rs => .alt r (anyOf rs)

/-- The patterns one after the other. -/
def inOrder : List Pattern → Pattern
  | [] => .empty
  | [r] => r
  | r :: rs => .seq r (inOrder rs)

/-- A text spelled out. -/
def word (chars : List Char) : Pattern := inOrder (chars.map char)

/-- A counted class matches exactly the texts of that length over the class. -/
theorem times_unit_matches (n : ℕ) (p : CodeUnit → Bool) (before middle after : Text) :
    (times n (.unit p)).Matches before middle after ↔
      middle.length = n ∧ ∀ c ∈ middle, p c = true := by
  induction n generalizing before middle with
  | zero =>
      simp only [times, Pattern.Matches, List.length_eq_zero_iff]
      constructor
      · rintro rfl
        simp
      · exact And.left
  | succ n ih =>
      simp only [times, Pattern.Matches, ih]
      constructor
      · rintro ⟨_, second, rfl, ⟨c, rfl, hc⟩, rfl, hsecond⟩
        exact ⟨by simp, by simpa [hc] using hsecond⟩
      · rintro ⟨hlength, hall⟩
        cases middle with
        | nil => simp at hlength
        | cons c middle =>
            refine ⟨[c], middle, rfl, ⟨c, rfl, hall c (by simp)⟩, by simpa using hlength, ?_⟩
            exact fun d hd => hall d (by simp [hd])

/-- A pattern between both anchors matches a text as a whole or not at all. -/
theorem anchored_hasMatch (r : Pattern) (s : Text) :
    (inOrder [.lineStart, r, .lineEnd]).hasMatch s = true ↔ r.Matches [] s [] := by
  simp only [Pattern.hasMatch_iff, inOrder, Pattern.Matches]
  constructor
  · rintro ⟨_, _, _, rfl, _, _, rfl, ⟨rfl, rfl⟩, middle, _, rfl, hmatches, rfl, rfl⟩
    simpa using hmatches
  · intro h
    exact ⟨[], s, [], by simp, [], s, rfl, ⟨rfl, rfl⟩, s, [], by simp, by simpa using h, rfl, rfl⟩

theorem char_matches (c : Char) (before middle after : Text) :
    (char c).Matches before middle after ↔ middle = [c.toNat] := by
  simp only [char, Pattern.Matches, beq_iff_eq]
  constructor
  · rintro ⟨_, rfl, rfl⟩
    rfl
  · rintro rfl
    exact ⟨_, rfl, rfl⟩

theorem range_matches (low high : Char) (before middle after : Text) :
    (range low high).Matches before middle after ↔
      ∃ c, middle = [c] ∧ low.toNat ≤ c ∧ c ≤ high.toNat := by
  simp only [range, Pattern.Matches, Bool.and_eq_true, decide_eq_true_eq]

/-- A pattern with an anchor at its end only matches at the end of a text, after anything. -/
theorem endAnchored_hasMatch (r : Pattern) (s : Text) :
    (inOrder [r, .lineEnd]).hasMatch s = true ↔
      ∃ before middle, s = before ++ middle ∧ r.Matches before middle [] := by
  simp only [Pattern.hasMatch_iff, inOrder, Pattern.Matches]
  constructor
  · rintro ⟨before, _, _, rfl, middle, _, rfl, hmatches, rfl, rfl⟩
    exact ⟨before, middle, by simp, by simpa using hmatches⟩
  · rintro ⟨before, middle, rfl, hmatches⟩
    exact ⟨before, middle, [], by simp, middle, [], by simp, by simpa using hmatches, rfl, rfl⟩

/-- Nothing can be matched before the start of a text. -/
theorem lineStart_hasMatch {r : Pattern} {rs : List Pattern}
    (h : ∀ before after, ¬ r.Matches before [] after) (s : Text) :
    (inOrder (r :: .lineStart :: rs)).hasMatch s = false := by
  have hstart : ∀ before middle after, (inOrder (.lineStart :: rs)).Matches before middle after →
      before = [] := by
    intro before middle after hmatches
    cases rs with
    | nil => exact hmatches.2
    | cons q rs =>
        obtain ⟨_, _, -, hfirst, -⟩ := hmatches
        exact hfirst.2
  rw [Bool.eq_false_iff, Ne, Pattern.hasMatch_iff]
  rintro ⟨before, _, after, rfl, first, second, rfl, hfirst, hsecond⟩
  obtain ⟨-, rfl⟩ := List.append_eq_nil_iff.mp (hstart _ _ _ hsecond)
  exact h _ _ hfirst

theorem anyOf_matches (rs : List Pattern) (before middle after : Text) :
    (anyOf rs).Matches before middle after ↔ ∃ r ∈ rs, r.Matches before middle after := by
  induction rs with
  | nil => simp [anyOf, Pattern.Matches]
  | cons r rs ih =>
      cases rs with
      | nil => simp [anyOf]
      | cons s rs => simp only [anyOf, Pattern.Matches, ih, List.exists_mem_cons_iff]

theorem word_matches (chars : List Char) (before middle after : Text) :
    (word chars).Matches before middle after ↔ middle = text chars := by
  induction chars generalizing before middle with
  | nil => rfl
  | cons c chars ih =>
      cases chars with
      | nil => exact char_matches c before middle after
      | cons d chars =>
          have hword : word (c :: d :: chars) = .seq (char c) (word (d :: chars)) := rfl
          simp only [hword, Pattern.Matches, char_matches, ih]
          constructor
          · rintro ⟨_, _, rfl, rfl, rfl⟩
            rfl
          · rintro rfl
            exact ⟨[c.toNat], text (d :: chars), rfl, rfl, rfl⟩

/-! ## Patterns over a class -/

/-- The pattern only matches texts over the class. -/
def Pattern.Over (P : CodeUnit → Prop) (r : Pattern) : Prop :=
  ∀ before middle after, r.Matches before middle after → ∀ c ∈ middle, P c

section Over

variable {P : CodeUnit → Prop} {r s : Pattern}

theorem Pattern.Over.empty : Pattern.empty.Over P := by
  rintro _ _ _ rfl c hc
  cases hc

theorem Pattern.Over.range {low high : Char} (h : ∀ c, low.toNat ≤ c → c ≤ high.toNat → P c) :
    (range low high).Over P := by
  intro before middle after hmatches
  obtain ⟨c, rfl, hlow, hhigh⟩ := (range_matches ..).mp hmatches
  simpa using h c hlow hhigh

theorem Pattern.Over.alt (hr : r.Over P) (hs : s.Over P) : (Pattern.alt r s).Over P := by
  rintro before middle after (h | h)
  · exact hr _ _ _ h
  · exact hs _ _ _ h

theorem Pattern.Over.seq (hr : r.Over P) (hs : s.Over P) : (Pattern.seq r s).Over P := by
  rintro before _ after ⟨first, second, rfl, hfirst, hsecond⟩ c hc
  rcases List.mem_append.mp hc with hc | hc
  · exact hr _ _ _ hfirst c hc
  · exact hs _ _ _ hsecond c hc

theorem Pattern.Over.times (hr : r.Over P) (n : ℕ) : (times n r).Over P := by
  induction n with
  | zero => exact .empty
  | succ n ih => exact hr.seq ih

theorem Pattern.Over.star (hr : r.Over P) : (Pattern.star r).Over P := by
  intro before middle after h
  induction (h : Iterated r.Matches before middle after) with
  | nil => simp
  | cons _ hfirst _ ih =>
      intro c hc
      rcases List.mem_append.mp hc with hc | hc
      · exact hr _ _ _ hfirst c hc
      · exact ih c hc

end Over

/-- The pattern matches the single characters of the class. -/
def Pattern.IsClass (P : CodeUnit → Prop) (r : Pattern) : Prop :=
  ∀ before middle after, r.Matches before middle after ↔ ∃ c, middle = [c] ∧ P c

section IsClass

variable {P Q : CodeUnit → Prop} {r s : Pattern}

theorem Pattern.IsClass.range (low high : Char) :
    (range low high).IsClass fun c => low.toNat ≤ c ∧ c ≤ high.toNat :=
  range_matches low high

theorem Pattern.IsClass.char (d : Char) : (char d).IsClass fun c => c = d.toNat := by
  intro before middle after
  simp [char_matches]

theorem Pattern.IsClass.alt (hr : r.IsClass P) (hs : s.IsClass Q) :
    (Pattern.alt r s).IsClass fun c => P c ∨ Q c := by
  intro before middle after
  simp only [Pattern.Matches, hr before middle after, hs before middle after, and_or_left,
    exists_or]

theorem Pattern.IsClass.star_matches (hr : r.IsClass P) (before middle after : Text) :
    (Pattern.star r).Matches before middle after ↔ ∀ c ∈ middle, P c := by
  constructor
  · refine Pattern.Over.star (fun before middle after h => ?_) before middle after
    obtain ⟨c, rfl, hc⟩ := (hr ..).mp h
    simpa using hc
  · intro hall
    induction middle generalizing before with
    | nil => exact .nil _ _
    | cons c middle ih =>
        obtain ⟨hc, hall⟩ := List.forall_mem_cons.mp hall
        exact Iterated.cons (List.cons_ne_nil c []) ((hr ..).mpr ⟨c, rfl, hc⟩) (ih _ hall)

theorem Pattern.IsClass.plus_matches (hr : r.IsClass P) (before middle after : Text) :
    (plus r).Matches before middle after ↔ middle ≠ [] ∧ ∀ c ∈ middle, P c := by
  simp only [plus, Pattern.Matches]
  constructor
  · rintro ⟨_, second, rfl, hfirst, hsecond⟩
    obtain ⟨c, rfl, hc⟩ := (hr ..).mp hfirst
    exact ⟨by simp, List.forall_mem_cons.mpr ⟨hc, (hr.star_matches ..).mp hsecond⟩⟩
  · rintro ⟨hne, hall⟩
    cases middle with
    | nil => exact absurd rfl hne
    | cons c middle =>
        obtain ⟨hc, hall⟩ := List.forall_mem_cons.mp hall
        exact ⟨[c], middle, rfl, (hr ..).mpr ⟨c, rfl, hc⟩, (hr.star_matches ..).mpr hall⟩

end IsClass

/-- What patterns in order match ends with what the last one matches. -/
theorem inOrder_snoc_matches {rs : List Pattern} {r : Pattern} {before middle after : Text}
    (h : (inOrder (rs ++ [r])).Matches before middle after) :
    ∃ front back, middle = front ++ back ∧ r.Matches (before ++ front) back after := by
  induction rs generalizing before middle with
  | nil => exact ⟨[], middle, rfl, by simpa [inOrder] using h⟩
  | cons q rs ih =>
      obtain ⟨p, ps, hps⟩ : ∃ p ps, rs ++ [r] = p :: ps := List.exists_cons_of_ne_nil (by simp)
      rw [List.cons_append, hps] at h
      obtain ⟨first, second, rfl, -, hsecond⟩ := h
      rw [← hps] at hsecond
      obtain ⟨front, back, rfl, hback⟩ := ih hsecond
      exact ⟨first ++ front, back, by simp, by simpa using hback⟩

/-! ## Validators -/

/-- A check that fails gives its message; the next one is made only after one that passes. -/
theorem check_eq_none_iff {p : Prop} [Decidable p] {message : String} {next : Option String} :
    (if p then some message else next) = none ↔ ¬ p ∧ next = none := by
  split <;> simp [*]

/-- A field that must not be empty and must match a pattern, which the empty text does not. -/
theorem required_eq_none_iff {r : Pattern} (h : r.hasMatch [] = false) (value : Text)
    {missing invalid : String} :
    (if value.isEmpty then some missing else if !r.hasMatch value then some invalid else none) =
      none ↔ r.hasMatch value = true := by
  rw [check_eq_none_iff, check_eq_none_iff]
  constructor
  · rintro ⟨-, hmatch, -⟩
    simpa using hmatch
  · intro hmatch
    have hne : value ≠ [] := by
      rintro rfl
      rw [h] at hmatch
      cases hmatch
    simp [hmatch, hne]

end Regex
