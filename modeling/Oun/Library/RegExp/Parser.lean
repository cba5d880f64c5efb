import Oun.Library.Numeral
import Oun.Library.RegExp.Matcher

/-! # Reading a regular expression

The grammar of ECMAScript without the flags `u` and `v`, that is, with the additions for the
web: what cannot be an escape, a class range or a counted quantifier is taken literally. -/

namespace RegExp

open Regex Numeral

/-- The tables of Unicode: the upper case of a unit, the name of a group at the start of a
text together with what follows its closing bracket, and the letters and digits. -/
structure Unicode where
  upperCase : CodeUnit → Text
  groupName : Text → Option (Text × Text)
  isAlphanumeric : ℕ → Bool

/-- The canonical form of a unit where case does not matter. -/
def Unicode.canonicalize (unicode : Unicode) (c : CodeUnit) : CodeUnit :=
  if c < 128 then (if 97 ≤ c ∧ c ≤ 122 then c - 32 else c)
  else
    match unicode.upperCase c with
    | [d] => if d < 128 then c else d
    | _ => c

/-! ## Tokens -/

inductive Group where
  | capture (name : Option Text)
  | plain
  | look (ahead negated : Bool)
  deriving DecidableEq, Repr

inductive Token where
  | term (r : Node) (quantifiable : Bool)
  | quantifier (min : ℕ) (max : Option ℕ) (greedy : Bool)
  | bar
  | opening (group : Group)
  | closing
  deriving DecidableEq, Repr

def unit (c : CodeUnit) : Node := .unit false [(c, c)]

def isDigit (c : CodeUnit) : Bool := 48 ≤ c && c ≤ 57

def isOctal (c : CodeUnit) : Bool := 48 ≤ c && c ≤ 55

def isLetter (c : CodeUnit) : Bool := (65 ≤ c && c ≤ 90) || (97 ≤ c && c ≤ 122)

/-- The units that are in none of the intervals, which are in order. -/
def complement (low : CodeUnit) : List Interval → List Interval
  | [] => [(low, 65535)]
  | (first, last) :: intervals => (low, first - 1) :: complement (last + 1) intervals

def lineTerminators : List Interval := [(10, 10), (13, 13), (8232, 8233)]

def digits : List Interval := [(48, 57)]

def spaces : List Interval :=
  [(9, 13), (32, 32), (160, 160), (5760, 5760), (8192, 8202), (8232, 8233), (8239, 8239),
    (8287, 8287), (12288, 12288), (65279, 65279)]

def wordUnits : List Interval := [(48, 57), (65, 90), (95, 95), (97, 122)]

/-- `\d`, `\D`, `\s`, `\S`, `\w` and `\W`. -/
def classEscape : CodeUnit → Option (List Interval)
  | 100 => some digits
  | 68 => some (complement 0 digits)
  | 115 => some spaces
  | 83 => some (complement 0 spaces)
  | 119 => some wordUnits
  | 87 => some (complement 0 wordUnits)
  | _ => none

/-- As many hexadecimal digits as stated. -/
def hexadecimal (count : ℕ) (s : Text) : Option (CodeUnit × Text) :=
  if (s.take count).length = count then (spelled 16 0 (s.take count)).map (·, s.drop count)
  else none

/-- Up to three octal digits with a value below 256, of which `c` is the first. -/
def octal (c : CodeUnit) : Text → CodeUnit × Text
  | [] => (c - 48, [])
  | d :: s =>
      if isOctal d then
        let value := 8 * (c - 48) + (d - 48)
        match s with
        | e :: s => if isOctal e && value < 32 then (8 * value + (e - 48), s) else (value, e :: s)
        | [] => (value, [])
      else (c - 48, d :: s)

/-- The unit that a backslash followed by `c` stands for. `named`: there is a named group. -/
def escapedUnit (inClass named : Bool) (c : CodeUnit) (s : Text) : Option (CodeUnit × Text) :=
  match c with
  | 102 => some (12, s)
  | 110 => some (10, s)
  | 114 => some (13, s)
  | 116 => some (9, s)
  | 118 => some (11, s)
  -- `\c` is a control character, or else a backslash, and the `c` is read again
  | 99 =>
      match s with
      | d :: rest =>
          if isLetter d || inClass && (isDigit d || d == 95) then some (d % 32, rest)
          else some (92, 99 :: s)
      | [] => some (92, [99])
  | 120 => some ((hexadecimal 2 s).getD (120, s))
  | 117 => some ((hexadecimal 4 s).getD (117, s))
  | 107 => if named then none else some (107, s)
  | c => if isOctal c then some (octal c s) else some (c, s)

/-! ## Classes -/

inductive ClassToken where
  | dash
  | unit (c : CodeUnit)
  | intervals (intervals : List Interval)

def ClassToken.unit? : ClassToken → Option CodeUnit
  | dash => some 45
  | unit c => some c
  | intervals _ => none

def ClassToken.members : ClassToken → List Interval
  | dash => [(45, 45)]
  | unit c => [(c, c)]
  | intervals is => is

def classLexeme (named : Bool) : CodeUnit → Text → Option (ClassToken × Text)
  | 45, s => some (.dash, s)
  | 92, [] => none
  | 92, 98 :: s => some (.unit 8, s)
  | 92, c :: s =>
      match classEscape c with
      | some intervals => some (.intervals intervals, s)
      | none => (escapedUnit true named c s).map fun (c, s) => (.unit c, s)
  | c, s => some (.unit c, s)

/-- The tokens up to the closing bracket, and what follows it. The first argument is the number
of units that belong to the last token. -/
def classTokens (named : Bool) : ℕ → Text → Option (List ClassToken × Text)
  | _, [] => none
  | skip + 1, _ :: s => classTokens named skip s
  | 0, c :: s =>
      if c = 93 then some ([], s)
      else
        match classLexeme named c s with
        | some (token, rest) =>
            (classTokens named (s.length - rest.length) s).map fun (more, rest) =>
              (token :: more, rest)
        | none => none

/-- A dash between two tokens makes a range of them if both are units. -/
def ranges : List ClassToken → Option (List Interval)
  | [] => some []
  | x :: .dash :: y :: tokens =>
      match x.unit?, y.unit? with
      | some low, some high =>
          if low ≤ high then (ranges tokens).map ((low, high) :: ·) else none
      | _, _ => (ranges tokens).map (x.members ++ (45, 45) :: y.members ++ ·)
  | x :: tokens => (ranges tokens).map (x.members ++ ·)

/-- A class after its opening bracket. -/
def characterClass (named : Bool) (s : Text) : Option (Node × Text) :=
  let (negated, s) := match s with
    | 94 :: s => (true, s)
    | s => (false, s)
  match classTokens named 0 s with
  | some (tokens, rest) => (ranges tokens).map fun intervals => (.unit negated intervals, rest)
  | none => none

/-! ## Groups and quantifiers -/

section Unicode

variable (unicode : Unicode)

/-- What an opening bracket opens. -/
def opening : Text → Option (Group × Text)
  | 63 :: 58 :: s => some (.plain, s)
  | 63 :: 61 :: s => some (.look true false, s)
  | 63 :: 33 :: s => some (.look true true, s)
  | 63 :: 60 :: 61 :: s => some (.look false false, s)
  | 63 :: 60 :: 33 :: s => some (.look false true, s)
  | 63 :: 60 :: s => (unicode.groupName s).map fun (name, s) => (.capture (some name), s)
  | 63 :: _ => none
  | s => some (.capture none, s)

/-- The names of the capturing groups in order, `none` for a group without one. -/
def captureGroups (inClass : Bool) : Text → List (Option Text)
  | [] => []
  | 92 :: _ :: s => captureGroups inClass s
  | c :: s =>
      if c = 40 ∧ !inClass then
        match opening unicode s with
        | some (.capture name, _) => name :: captureGroups inClass s
        | _ => captureGroups inClass s
      else captureGroups (if c = 91 then true else if c = 93 then false else inClass) s

/-- The number at the start of a text, if there is one, and what follows it. -/
def number (s : Text) : Option ℕ × Text :=
  let digits := s.takeWhile isDigit
  (if digits = [] then none else spelled 10 0 digits, s.drop digits.length)

/-- A counted quantifier after its opening brace. -/
def braces (s : Text) : Option (ℕ × Option ℕ × Text) :=
  match number s with
  | (some min, 125 :: rest) => some (min, some min, rest)
  | (some min, 44 :: rest) =>
      match number rest with
      | (max, 125 :: rest) => some (min, max, rest)
      | _ => none
  | _ => none

/-- A question mark after a quantifier makes it lazy. -/
def quantifier (min : ℕ) (max : Option ℕ) : Text → Token × Text
  | 63 :: s => (.quantifier min max false, s)
  | s => (.quantifier min max true, s)

/-! ## The tokens of a regular expression -/

/-- What a backslash followed by `c` stands for; `groups` are the capturing groups. -/
def escape (groups : List (Option Text)) (c : CodeUnit) (s : Text) : Option (Token × Text) :=
  let named := groups.any Option.isSome
  let (index, rest) := number (c :: s)
  if c = 98 then some (.term (.boundary false) false, s)
  else if c = 66 then some (.term (.boundary true) false, s)
  else if c ≠ 48 ∧ ∃ i ∈ index, i ≤ groups.length then
    some (.term (.backreference (index.getD 0)) true, rest)
  else if c = 107 ∧ named then
    match s with
    | 60 :: s =>
        match unicode.groupName s with
        | some (name, s) => (groups.findIdx? (· = some name)).map fun i =>
            (.term (.backreference (i + 1)) true, s)
        | none => none
    | _ => none
  else
    match classEscape c with
    | some intervals => some (.term (.unit false intervals) true, s)
    | none => (escapedUnit false named c s).map fun (c, s) => (.term (unit c) true, s)

/-- The token that begins with `c`, and what follows it: `^ $ . * + ? ( ) | [ \ {` in this
order, and the units that stand for themselves. -/
def lexeme (groups : List (Option Text)) (c : CodeUnit) (s : Text) : Option (Token × Text) :=
  match c with
  | 94 => some (.term .lineStart false, s)
  | 36 => some (.term .lineEnd false, s)
  | 46 => some (.term (.unit true lineTerminators) true, s)
  | 42 => some (quantifier 0 none s)
  | 43 => some (quantifier 1 none s)
  | 63 => some (quantifier 0 (some 1) s)
  | 40 => (opening unicode s).map fun (group, s) => (.opening group, s)
  | 41 => some (.closing, s)
  | 124 => some (.bar, s)
  | 91 => (characterClass (groups.any Option.isSome) s).map fun (r, s) => (.term r true, s)
  | 92 =>
      match s with
      | c :: s => escape unicode groups c s
      | [] => none
  | 123 =>
      match braces s with
      | some (min, max, rest) =>
          if ∀ m ∈ max, min ≤ m then some (quantifier min max rest) else none
      | none => some (.term (unit 123) true, s)
  | c => some (.term (unit c) true, s)

/-- The first argument is the number of units that belong to the last token. -/
def tokens (groups : List (Option Text)) : ℕ → Text → Option (List Token)
  | _, [] => some []
  | skip + 1, _ :: s => tokens groups skip s
  | 0, c :: s =>
      match lexeme unicode groups c s with
      | some (token, rest) => (tokens groups (s.length - rest.length) s).map (token :: ·)
      | none => none

end Unicode

/-! ## The syntax tree -/

/-- A group that is open: its alternatives so far, and the terms of the last one backwards. -/
structure Frame where
  group : Group
  index : ℕ
  earlier : Option Node
  terms : List Node
  deriving DecidableEq, Repr

/-- `next` is the number of the next capturing group; `quantifiable`: there is a last term, and
it may be quantified. -/
structure Builder where
  frame : Frame
  outer : List Frame
  next : ℕ
  quantifiable : Bool
  deriving DecidableEq, Repr

def Builder.start : Builder := ⟨⟨.plain, 0, none, []⟩, [], 1, false⟩

def Frame.node (frame : Frame) : Node :=
  let last := frame.terms.foldl (fun r term => .seq term r) .empty
  match frame.earlier with
  | some r => .alt r last
  | none => last

/-- The group as a term. -/
def Frame.close (frame : Frame) : Node :=
  match frame.group with
  | .capture _ => .group frame.index frame.node
  | .plain => frame.node
  | .look ahead negated => .look ahead negated frame.node

/-- There is no quantifier after a look-behind. -/
def Group.quantifiable : Group → Bool
  | .look ahead _ => ahead
  | _ => true

def Builder.step (b : Builder) : Token → Option Builder
  | .term r quantifiable =>
      some { b with frame := { b.frame with terms := r :: b.frame.terms }, quantifiable }
  | .quantifier min max greedy =>
      match b.quantifiable, b.frame.terms with
      | true, r :: terms => some { b with
          frame := { b.frame with terms := .repeated min max greedy r :: terms }
          quantifiable := false }
      | _, _ => none
  | .bar => some { b with
      frame := { b.frame with earlier := some b.frame.node, terms := [] }
      quantifiable := false }
  | .opening group => some {
      frame := ⟨group, b.next, none, []⟩
      outer := b.frame :: b.outer
      next := match group with
        | .capture _ => b.next + 1
        | _ => b.next
      quantifiable := false }
  | .closing =>
      match b.outer with
      | frame :: outer => some { b with
          frame := { frame with terms := b.frame.close :: frame.terms }
          outer
          quantifiable := b.frame.group.quantifiable }
      | [] => none

/-- The regular expression that is written in `source`, if it is valid. -/
def parse (unicode : Unicode) (source : Text) : Option Node :=
  let groups := captureGroups unicode false source
  if (groups.filterMap id).Nodup then
    match (tokens unicode groups 0 source).bind fun tokens => tokens.foldlM Builder.step .start with
    | some b => if b.outer = [] then some b.frame.node else none
    | none => none
  else none

end RegExp
