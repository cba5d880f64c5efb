import Oun.Library.RegExp.Parser
import Oun.Model.Handlers

/-! # The search screen

The query is read as a regular expression. Its constructor throws if it is not a valid one. -/

namespace Oun

open Firestore Regex RegExp Numeral

structure FormatException where
  source : Text
  deriving DecidableEq, Repr

variable (unicode : Unicode)

/-- The constructor of `RegExp`. -/
def regExp (source : Text) : Except FormatException Node :=
  match parse unicode source with
  | some reg => .ok reg
  | none => .error ⟨source⟩

/-- `pat`: the trimmed query between two `\b`. -/
def pat (searched : Text) : Text := text ['\\', 'b'] ++ trim searched ++ text ['\\', 'b']

/-- `none` is the empty box. Case does not matter. -/
def itemBuilder (searched : Text) (d : Doc Task) : Except FormatException (Option Furniture) := do
  let reg ← regExp unicode (pat searched)
  if reg.hasMatch unicode.canonicalize d.data.title ||
      reg.hasMatch unicode.canonicalize d.data.description then
    return some (.ofDoc d)
  else return none

/-- The items of the list, of which there is one for every task. -/
def searchResult (searched : Text) (docs : List (Doc Task)) :
    List (Except FormatException (Option Furniture)) :=
  docs.map (itemBuilder unicode searched)

end Oun
