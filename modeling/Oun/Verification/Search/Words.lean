import Oun.Library.RegExp.Literal
import Oun.Model.Search

/-! # Searching for a word

The query is found where both of its ends are boundaries of ASCII words, provided that none
of its characters means something else in a regular expression. -/

namespace Oun

open Firestore Regex RegExp Numeral

variable (unicode : Unicode)

/-! ## Words of any script -/

def isHighSurrogate (c : ℕ) : Bool := 0xD800 ≤ c && c ≤ 0xDBFF

def isLowSurrogate (c : ℕ) : Bool := 0xDC00 ≤ c && c ≤ 0xDFFF

def codePoint (high low : ℕ) : ℕ := 0x10000 + 1024 * (high - 0xD800) + (low - 0xDC00)

/-- The character at the start of a text, of which two code units may be a part. -/
def firstCharacter : Text → Option ℕ
  | [] => none
  | [c] => some c
  | c :: d :: _ => if isHighSurrogate c && isLowSurrogate d then some (codePoint c d) else some c

def lastCharacter (s : Text) : Option ℕ :=
  match s.reverse with
  | [] => none
  | [c] => some c
  | d :: c :: _ => if isHighSurrogate c && isLowSurrogate d then some (codePoint c d) else some d

/-- A letter, digit or underscore. -/
def isWordCharacter (c : ℕ) : Bool :=
  if c < 128 then isWord c else unicode.isAlphanumeric c

/-- The text contains the query, up to case, with no letter, digit or underscore next to it. -/
def Delimited (query s : Text) : Prop :=
  ∃ before middle after, s = before ++ (middle ++ after) ∧
    middle.map unicode.canonicalize = query.map unicode.canonicalize ∧
    (lastCharacter before).any (isWordCharacter unicode) = false ∧
    (firstCharacter after).any (isWordCharacter unicode) = false

/-- The task is one of those that the query asks for. -/
def Finds (searched : Text) (d : Doc Task) : Prop :=
  Delimited unicode (trim searched) d.data.title ∨
    Delimited unicode (trim searched) d.data.description

/-- The item of a task shows it exactly if the query asks for it, and does not throw. -/
def Shows (searched : Text) (d : Doc Task)
    (item : Except FormatException (Option Furniture)) : Prop :=
  (Finds unicode searched d ∧ item = .ok (some (.ofDoc d))) ∨
    (¬ Finds unicode searched d ∧ item = .ok none)

def SearchCorrect (searched : Text) (docs : List (Doc Task)) : Prop :=
  List.Forall₂ (Shows unicode searched) docs (searchResult unicode searched docs)

/-! ## ASCII words -/

/-- The text contains the query, up to case, between two boundaries of ASCII words. -/
def Bounded (query s : Text) : Prop :=
  ∃ before middle after, s = before ++ (middle ++ after) ∧
    middle.map unicode.canonicalize = query.map unicode.canonicalize ∧
    AtBoundary before (middle ++ after) ∧ AtBoundary (before ++ middle) after

def BoundedIn (searched : Text) (d : Doc Task) : Prop :=
  Bounded unicode (trim searched) d.data.title ∨ Bounded unicode (trim searched) d.data.description

/-- The query begins and ends with a letter, digit or underscore of ASCII. -/
def Plain (query : Text) : Prop :=
  query.head?.any isWord = true ∧ query.getLast?.any isWord = true

/-- There is nothing to search, or the query has no metacharacters, and where it is between
boundaries of ASCII words and where it is delimited is the same for every task. The latter
implies the former if both of its ends are ASCII words. -/
def SearchesWell (searched : Text) (docs : List (Doc Task)) : Prop :=
  docs = [] ∨ isLiteral (trim searched) = true ∧
    (∀ d ∈ docs, BoundedIn unicode searched d → Finds unicode searched d) ∧
    (Plain (trim searched) ∨ ∀ d ∈ docs, Finds unicode searched d → BoundedIn unicode searched d)

/-! ## Plain queries -/

theorem Plain.of_map_eq {unicode : Unicode} {query middle : Text} (h : Plain query)
    (hmap : middle.map unicode.canonicalize = query.map unicode.canonicalize) : Plain middle := by
  constructor
  · rw [← h.1]
    apply any_isWord_of_canonicalize unicode
    rw [← List.head?_map, hmap, List.head?_map]
  · rw [← h.2]
    apply any_isWord_of_canonicalize unicode
    rw [← List.getLast?_map, hmap, List.getLast?_map]

theorem Plain.ne_nil {query : Text} (h : Plain query) : query ≠ [] := by
  rintro rfl
  cases h.1

/-! ## Neighbours -/

theorem isWord_lt {c : ℕ} (h : isWord c = true) : c < 128 := by
  by_contra hge
  rw [isWord_of_le (Nat.not_lt.mp hge)] at h
  cases h

theorem isWordCharacter_of_isWord {c : ℕ} (h : isWord c = true) :
    isWordCharacter unicode c = true := by
  rw [isWordCharacter, if_pos (isWord_lt h), h]

/-- An ASCII word character is not a part of another character. -/
theorem not_surrogate_of_isWord {c : ℕ} (h : isWord c = true) :
    isHighSurrogate c = false ∧ isLowSurrogate c = false := by
  have hlt := isWord_lt h
  constructor
  · exact Bool.and_eq_false_imp.mpr fun hle => absurd (of_decide_eq_true hle) (by omega)
  · exact Bool.and_eq_false_imp.mpr fun hle => absurd (of_decide_eq_true hle) (by omega)

theorem firstCharacter_of_isWord {s : Text} (h : s.head?.any isWord = true) :
    (firstCharacter s).any (isWordCharacter unicode) = true := by
  cases s with
  | nil => cases h
  | cons c s =>
      cases s with
      | nil => exact isWordCharacter_of_isWord unicode h
      | cons d s =>
          rw [firstCharacter, (not_surrogate_of_isWord h).1]
          exact isWordCharacter_of_isWord unicode h

theorem lastCharacter_of_isWord {s : Text} (h : s.getLast?.any isWord = true) :
    (lastCharacter s).any (isWordCharacter unicode) = true := by
  rw [← List.head?_reverse] at h
  unfold lastCharacter
  generalize s.reverse = back at h ⊢
  cases back with
  | nil => cases h
  | cons d back =>
      cases back with
      | nil => exact isWordCharacter_of_isWord unicode h
      | cons c back =>
          simp only [(not_surrogate_of_isWord h).2, Bool.and_false]
          exact isWordCharacter_of_isWord unicode h

/-- A plain query is between boundaries of ASCII words wherever it is delimited. -/
theorem bounded_of_delimited {unicode : Unicode} {query s : Text} (hplain : Plain query)
    (h : Delimited unicode query s) : Bounded unicode query s := by
  obtain ⟨before, middle, after, rfl, hmap, hbefore, hafter⟩ := h
  have hmiddle : Plain middle := hplain.of_map_eq hmap
  refine ⟨before, middle, after, rfl, hmap, ?_, ?_⟩
  · rw [AtBoundary, List.head?_append_of_ne_nil _ hmiddle.ne_nil, hmiddle.1]
    intro heq
    rw [lastCharacter_of_isWord unicode heq] at hbefore
    cases hbefore
  · rw [AtBoundary, List.getLast?_append_of_ne_nil _ hmiddle.ne_nil, hmiddle.2]
    intro heq
    rw [firstCharacter_of_isWord unicode heq.symm] at hafter
    cases hafter

/-! ## The items -/

/-- A query without metacharacters is found between boundaries of ASCII words. -/
theorem itemBuilder_literal {searched : Text}
    (h : isLiteral (trim searched) = true) (d : Doc Task) :
    (BoundedIn unicode searched d → itemBuilder unicode searched d = .ok (some (.ofDoc d))) ∧
      (¬ BoundedIn unicode searched d → itemBuilder unicode searched d = .ok none) := by
  have hreg : regExp unicode (pat searched) =
      .ok (.seq (.boundary false) (literal (trim searched))) := by
    have hparse : parse unicode (pat searched) = _ := parse_literal unicode h
    rw [regExp, hparse]
  have hbounded : ∀ s, (Node.seq (.boundary false) (literal (trim searched))).hasMatch
      unicode.canonicalize s = true ↔ Bounded unicode (trim searched) s :=
    literal_hasMatch unicode.canonicalize (trim searched)
  have hitem : itemBuilder unicode searched d = _ := congrArg (· >>= _) hreg
  constructor
  · intro hin
    have hin' := Bool.or_eq_true_iff.mpr (hin.imp (hbounded _).mpr (hbounded _).mpr)
    exact hitem.trans (if_pos hin')
  · intro hnotin
    have hnotin' := fun h => hnotin ((Bool.or_eq_true_iff.mp h).imp (hbounded _).mp (hbounded _).mp)
    exact hitem.trans (if_neg hnotin')

/-- Such a query is right for a task if it is bounded exactly where it is delimited. -/
theorem shows_iff {searched : Text} (h : isLiteral (trim searched) = true)
    (d : Doc Task) : Shows unicode searched d (itemBuilder unicode searched d) ↔
      (BoundedIn unicode searched d ↔ Finds unicode searched d) := by
  obtain ⟨hin, hnotin⟩ := itemBuilder_literal unicode h d
  by_cases hbounded : BoundedIn unicode searched d
  · simp [Shows, hin hbounded, hbounded]
  · simp [Shows, hnotin hbounded, hbounded]

/-- A query that is not valid throws for every task. -/
theorem not_shows_of_invalid {unicode : Unicode} {searched : Text}
    (h : parse unicode (pat searched) = none) (d : Doc Task) :
    ¬ Shows unicode searched d (itemBuilder unicode searched d) := by
  have hitem : itemBuilder unicode searched d = .error ⟨pat searched⟩ := by
    simp only [itemBuilder, regExp, h]
    rfl
  simp [Shows, hitem]

theorem searchCorrect_iff_forall {unicode : Unicode} {searched : Text} {docs : List (Doc Task)} :
    SearchCorrect unicode searched docs ↔
      ∀ d ∈ docs, Shows unicode searched d (itemBuilder unicode searched d) := by
  rw [SearchCorrect, searchResult, List.forall₂_map_right_iff, List.forall₂_same]

/-- The search is right where the query searches well. It is right nowhere else as long as the
query has no metacharacters, or is not valid. -/
theorem search_correct (searched : Text) (docs : List (Doc Task)) :
    (SearchesWell unicode searched docs → SearchCorrect unicode searched docs) ∧
      (isLiteral (trim searched) = true ∨ parse unicode (pat searched) = none →
        SearchCorrect unicode searched docs → SearchesWell unicode searched docs) := by
  simp only [searchCorrect_iff_forall]
  constructor
  · rintro (rfl | ⟨hliteral, hbounded, hfinds⟩) d hd
    · exact absurd hd List.not_mem_nil
    · refine (shows_iff unicode hliteral d).mpr ⟨hbounded d hd, fun hfind => ?_⟩
      rcases hfinds with hplain | hfinds
      · exact hfind.imp (bounded_of_delimited hplain) (bounded_of_delimited hplain)
      · exact hfinds d hd hfind
  · rintro (hliteral | hinvalid) hshows
    · have hiff := fun d hd => (shows_iff unicode hliteral d).mp (hshows d hd)
      exact .inr ⟨hliteral, fun d hd => (hiff d hd).mp, .inr fun d hd => (hiff d hd).mpr⟩
    · refine .inl (List.eq_nil_iff_forall_not_mem.mpr fun d hd => ?_)
      exact not_shows_of_invalid hinvalid d (hshows d hd)

/-! ## No query is right everywhere -/

/-- A task with the title alone. -/
def titled (title : Text) : Doc Task :=
  ⟨0, { author := 1, title, description := [], city := .riyadh, category := .otherTasks }⟩

theorem length_of_map_eq {f : CodeUnit → CodeUnit} {s t : Text} (h : s.map f = t.map f) :
    s.length = t.length := by
  simpa using congrArg List.length h

theorem eq_nil_of_occurs {f : CodeUnit → CodeUnit} {query before middle after : Text}
    (hsplit : [] = before ++ (middle ++ after)) (hmap : middle.map f = query.map f) :
    query = [] := by
  obtain ⟨-, hrest⟩ := List.append_eq_nil_iff.mp hsplit.symm
  obtain ⟨rfl, -⟩ := List.append_eq_nil_iff.mp hrest
  exact List.length_eq_zero_iff.mp (length_of_map_eq hmap).symm

/-- The empty description contains no query. -/
theorem finds_titled_iff {searched : Text} (hquery : trim searched ≠ []) (title : Text) :
    Finds unicode searched (titled title) ↔ Delimited unicode (trim searched) title := by
  refine or_iff_left ?_
  rintro ⟨before, middle, after, hsplit, hmap, -⟩
  exact hquery (eq_nil_of_occurs hsplit hmap)

theorem boundedIn_titled_iff {searched : Text} (hquery : trim searched ≠ []) (title : Text) :
    BoundedIn unicode searched (titled title) ↔ Bounded unicode (trim searched) title := by
  refine or_iff_left ?_
  rintro ⟨before, middle, after, hsplit, hmap, -⟩
  exact hquery (eq_nil_of_occurs hsplit hmap)

/-- A plain query is bounded in front of a letter outside ASCII. -/
theorem bounded_of_letter {query : Text} {c : ℕ} (hplain : Plain query) (hc : 128 ≤ c) :
    Bounded unicode query (query ++ [c]) := by
  refine ⟨[], query, [c], rfl, rfl, ?_, ?_⟩
  · rw [AtBoundary, List.head?_append_of_ne_nil _ hplain.ne_nil, hplain.1]
    decide
  · rw [AtBoundary, List.nil_append, hplain.2]
    simp [isWord_of_le hc]

/-- It is not delimited there. -/
theorem not_delimited_of_letter {query : Text} {c : ℕ} (hplain : Plain query) (hc : 128 ≤ c)
    (hletter : unicode.isAlphanumeric c = true) : ¬ Delimited unicode query (query ++ [c]) := by
  rintro ⟨before, middle, after, hsplit, hmap, -, hafter⟩
  have hmiddle := length_of_map_eq hmap
  cases before with
  | nil =>
      rw [List.nil_append] at hsplit
      obtain ⟨-, rfl⟩ := List.append_inj hsplit hmiddle.symm
      have hword : isWordCharacter unicode c = true := by
        rw [isWordCharacter, if_neg (Nat.not_lt.mpr hc), hletter]
      rw [firstCharacter, Option.any_some, hword] at hafter
      cases hafter
  | cons b before =>
      have hlength := congrArg List.length hsplit
      simp only [List.length_append, List.length_cons, List.length_nil] at hlength
      obtain rfl : before = [] := List.length_eq_zero_iff.mp (by omega)
      obtain rfl : after = [] := List.length_eq_zero_iff.mp (by omega)
      have hword : Plain middle := hplain.of_map_eq hmap
      have hlast : middle.getLast? = some c := by
        have h := congrArg List.getLast? hsplit
        rw [List.getLast?_concat, List.append_nil,
          List.getLast?_append_of_ne_nil _ hword.ne_nil] at h
        exact h.symm
      have hcontra := hword.2
      rw [hlast, Option.any_some, isWord_of_le hc] at hcontra
      cases hcontra

/-- A query stands alone in itself, but is only bounded there if it is plain. -/
theorem delimited_self (query : Text) : Delimited unicode query query :=
  ⟨[], query, [], by simp, rfl, rfl, rfl⟩

theorem plain_of_bounded_self {query : Text} (h : Bounded unicode query query) : Plain query := by
  obtain ⟨before, middle, after, hsplit, hmap, hfirst, hlast⟩ := h
  have hlength := congrArg List.length hsplit
  have hmiddle := length_of_map_eq hmap
  simp only [List.length_append] at hlength
  obtain rfl : before = [] := List.length_eq_zero_iff.mp (by omega)
  obtain rfl : after = [] := List.length_eq_zero_iff.mp (by omega)
  obtain rfl : query = middle := by simpa using hsplit
  rw [AtBoundary, List.append_nil] at hfirst
  rw [AtBoundary, List.nil_append] at hlast
  exact ⟨by simpa using hfirst.symm, by simpa using hlast⟩

/-- Whatever the query, valid without metacharacters or not valid at all, there is a task for
which the search is wrong, as soon as there is a letter outside ASCII. -/
theorem exists_not_searchCorrect {searched : Text} (hquery : trim searched ≠ [])
    (hreach : isLiteral (trim searched) = true ∨ parse unicode (pat searched) = none)
    {c : ℕ} (hc : 128 ≤ c) (hletter : unicode.isAlphanumeric c = true) :
    ∃ d, ¬ SearchCorrect unicode searched [d] := by
  simp only [searchCorrect_iff_forall, List.forall_mem_singleton]
  rcases hreach with hliteral | hinvalid
  · simp only [shows_iff unicode hliteral]
    by_cases hplain : Plain (trim searched)
    · refine ⟨titled (trim searched ++ [c]), fun hiff => ?_⟩
      rw [finds_titled_iff unicode hquery, boundedIn_titled_iff unicode hquery] at hiff
      exact not_delimited_of_letter unicode hplain hc hletter
        (hiff.mp (bounded_of_letter unicode hplain hc))
    · refine ⟨titled (trim searched), fun hiff => ?_⟩
      rw [finds_titled_iff unicode hquery, boundedIn_titled_iff unicode hquery] at hiff
      exact hplain (plain_of_bounded_self unicode (hiff.mpr (delimited_self unicode _)))
  · exact ⟨titled [], not_shows_of_invalid hinvalid _⟩

namespace Scenario

/-- The tables as far as Arabic is concerned. -/
def arabic : Unicode where
  upperCase c := [c]
  groupName _ := none
  isAlphanumeric c := 0x620 ≤ c && c ≤ 0x64A

def paint : Text := text ['p', 'a', 'i', 'n', 't', ' ']

def painted : Text := text ['w', 'e', ' ', 'P', 'a', 'i', 'n', 't', '.']

def plusPlus : Text := text ['c', '+', '+']

def pen : Text := text ['ق', 'ل', 'م']

end Scenario

theorem search_correct_paint :
    SearchCorrect Scenario.arabic Scenario.paint [titled Scenario.painted] := by
  have hfinds : ∀ d ∈ [titled Scenario.painted],
      Finds Scenario.arabic Scenario.paint d := by
    intro d hd
    obtain rfl := List.mem_singleton.mp hd
    exact .inl ⟨text ['w', 'e', ' '], text ['P', 'a', 'i', 'n', 't'], text ['.'],
      by decide, by decide, by decide, by decide⟩
  exact (search_correct Scenario.arabic Scenario.paint [titled Scenario.painted]).1
    (.inr ⟨by decide, fun d hd _ => hfinds d hd, .inl (by unfold Plain; decide)⟩)

/-- The query `c++` is not valid, and an Arabic word is not found where it stands alone. -/
theorem unescaped_query_throws :
    (¬ ∀ unicode searched docs, trim searched ≠ [] → SearchCorrect unicode searched docs) ∧
      ¬ ∀ unicode searched docs, trim searched ≠ [] → isLiteral (trim searched) = true →
        SearchCorrect unicode searched docs := by
  constructor
  · intro h
    have hshows := searchCorrect_iff_forall.mp (h Scenario.arabic Scenario.plusPlus
      [titled Scenario.plusPlus] (by decide))
    exact not_shows_of_invalid (by decide +kernel) _ (hshows _ List.mem_cons_self)
  · intro h
    have hshows := searchCorrect_iff_forall.mp (h Scenario.arabic Scenario.pen
      [titled Scenario.pen] (by decide) (by decide))
    rcases hshows _ List.mem_cons_self with ⟨-, hitem⟩ | ⟨hnot, -⟩
    · exact absurd hitem (by decide +kernel)
    · exact hnot (.inl ⟨[], Scenario.pen, [], by decide, by decide, by decide, by decide⟩)

end Oun
