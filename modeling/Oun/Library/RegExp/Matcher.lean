import Mathlib.Logic.Function.Basic
import Oun.Library.Regex

/-! # Regular expressions with groups, back references and look-around

The backtracking matcher of ECMAScript. What it delivers are the outcomes in the order in
which they are tried: a look-around keeps the first one only. -/

namespace RegExp

open Regex

/-- The code units from the first to the second one. -/
abbrev Interval := CodeUnit × CodeUnit

inductive Node where
  | empty
  | unit (negated : Bool) (intervals : List Interval)
  | seq (r s : Node)
  | alt (r s : Node)
  | lineStart
  | lineEnd
  | boundary (negated : Bool)
  | group (index : ℕ) (r : Node)
  | backreference (index : ℕ)
  | look (ahead negated : Bool) (r : Node)
  | repeated (min : ℕ) (max : Option ℕ) (greedy : Bool) (r : Node)
  deriving DecidableEq, Repr

/-- What the groups have matched last. -/
abbrev Captures := ℕ → Option Text

abbrev State := Position × Captures

/-- The groups within a node. -/
def Node.groups : Node → List ℕ
  | empty | unit _ _ | lineStart | lineEnd | boundary _ | backreference _ => []
  | seq r s | alt r s => r.groups ++ s.groups
  | group index r => index :: r.groups
  | look _ _ r | repeated _ _ _ r => r.groups

def clear (groups : List ℕ) (captures : Captures) : Captures :=
  fun index => if index ∈ groups then none else captures index

/-- The next unit in the direction of the match, and the position after it. -/
def advance : Bool → Position → Option (CodeUnit × Position)
  | true, (back, c :: after) => some (c, (c :: back, after))
  | false, (c :: back, after) => some (c, (back, c :: after))
  | _, _ => none

/-- The text from `start` to `stop`, when `stop` was reached in the direction of the match. -/
def stretch (ahead : Bool) (start stop : Position) : Text :=
  if ahead then start.2.take (start.2.length - stop.2.length)
  else stop.2.take (stop.2.length - start.2.length)

/-- `f` as often as stated. -/
def mandatory (f : State → List State) : ℕ → State → List State
  | 0, x => [x]
  | n + 1, x => (f x).flatMap (mandatory f n)

/-- `f` at most as often as stated, and only as long as it makes progress. -/
def optional (f : State → List State) (greedy : Bool) : ℕ → State → List State
  | 0, x => [x]
  | n + 1, x =>
      let more := ((f x).filter fun y => y.1 ≠ x.1).flatMap (optional f greedy n)
      if greedy then more ++ [x] else x :: more

section Canonicalize

-- two units match each other if they have the same canonical form
variable (canonicalize : CodeUnit → CodeUnit)

def contains (intervals : List Interval) (c : CodeUnit) : Bool :=
  intervals.any fun (low, high) =>
    (List.range' low (high + 1 - low)).any fun a => canonicalize a == canonicalize c

/-- Matches the units one after the other. -/
def follow (ahead : Bool) : Text → Position → Option Position
  | [], pos => some pos
  | c :: s, pos =>
      match advance ahead pos with
      | some (d, pos) => if canonicalize c = canonicalize d then follow ahead s pos else none
      | none => none

/-- The states in which a match of the node can end. -/
def Node.run : Node → Bool → State → List State
  | empty, _, x => [x]
  | unit negated intervals, ahead, x =>
      match advance ahead x.1 with
      | some (c, pos) =>
          if contains canonicalize intervals c != negated then [(pos, x.2)] else []
      | none => []
  | seq r s, true, x => (r.run true x).flatMap (s.run true)
  | seq r s, false, x => (s.run false x).flatMap (r.run false)
  | alt r s, ahead, x => r.run ahead x ++ s.run ahead x
  | lineStart, _, x => if x.1.1 = [] then [x] else []
  | lineEnd, _, x => if x.1.2 = [] then [x] else []
  | boundary negated, _, x =>
      if (x.1.1.head?.any isWord != x.1.2.head?.any isWord) != negated then [x] else []
  | group index r, ahead, x =>
      (r.run ahead x).map fun y =>
        (y.1, Function.update y.2 index (some (stretch ahead x.1 y.1)))
  | backreference index, ahead, x =>
      match x.2 index with
      | some s =>
          ((follow canonicalize ahead (if ahead then s else s.reverse) x.1).map (·, x.2)).toList
      | none => [x]
  | look ahead negated r, _, x =>
      match r.run ahead x with
      | y :: _ => if negated then [] else [(x.1, y.2)]
      | [] => if negated then [x] else []
  | repeated min max greedy r, ahead, x =>
      let iteration := fun x : State => r.run ahead (x.1, clear r.groups x.2)
      -- each optional iteration moves on, so that there are no more of them than units
      let rounds := match max with
        | some max => max - min
        | none => x.1.1.length + x.1.2.length
      (mandatory iteration min x).flatMap (optional iteration greedy rounds)

/-- `hasMatch`: the node matches from some position on. -/
def Node.hasMatch (r : Node) (s : Text) : Bool :=
  (positions [] s).any fun pos => !(r.run canonicalize true (pos, fun _ => none)).isEmpty

/-! ## Nodes without groups -/

/-- The node does what a pattern does, and does not touch the captures. -/
def Node.Agrees (r : Node) (p : Pattern) : Prop :=
  ∀ pos captures, r.run canonicalize true (pos, captures) = (p.run pos).map (·, captures)

variable {canonicalize}
variable {r s : Node} {p q : Pattern}

theorem Node.Agrees.empty : Node.empty.Agrees canonicalize .empty :=
  fun _ _ => rfl

theorem Node.Agrees.unit (intervals : List Interval) :
    (Node.unit false intervals).Agrees canonicalize
      (.unit (contains canonicalize intervals)) := by
  rintro ⟨back, after⟩ captures
  cases after with
  | nil => cases back <;> rfl
  | cons c after =>
      simp only [Node.run, advance, Pattern.run, Bool.bne_false]
      split <;> rfl

theorem Node.Agrees.boundary :
    (Node.boundary false).Agrees canonicalize .wordBoundary := by
  intro pos captures
  simp only [Node.run, Pattern.run, Bool.bne_false, bne_iff_ne]
  split <;> rfl

theorem Node.Agrees.seq (hr : r.Agrees canonicalize p) (hs : s.Agrees canonicalize q) :
    (Node.seq r s).Agrees canonicalize (.seq p q) := by
  intro pos captures
  have hsecond : (fun x => s.run canonicalize true (x, captures)) =
      fun x => (q.run x).map (·, captures) := funext fun x => hs x captures
  simp only [Node.run, Pattern.run, hr pos captures, List.flatMap_map, hsecond, List.map_flatMap]

theorem Node.Agrees.hasMatch_eq (h : r.Agrees canonicalize p) (s : Text) :
    r.hasMatch canonicalize s = p.hasMatch s := by
  simp only [Node.hasMatch, Pattern.hasMatch, h _ _, List.isEmpty_map]

end Canonicalize

end RegExp
