import Oun.Model.Sessions

/-! # Two operations side by side

An operation is a handler together with what its user enters: an offer with its check, a
confirmed Accept or Reject, a report with its check. Two operations run on one store, and
in every turn one of them takes its next step. -/

namespace Oun

open Firestore Regex

inductive Operation where
  | offer (uid : Uid) (furniture : Furniture) (price : { price // priceValidator price = none })
  | accept (uid : Uid) (taskId : DocId) (item : Item)
  | reject (uid : Uid) (taskId : DocId) (item : Item)
  | report (uid : Uid) (furniture : Furniture) (reason : Reason)

def Operation.uid : Operation → Uid
  | offer uid .. | accept uid .. | reject uid .. | report uid .. => uid

/-- The task that an operation is addressed to. -/
def Operation.task : Operation → DocId
  | offer _ furniture _ | report _ furniture _ => furniture.id
  | accept _ taskId _ | reject _ taskId _ => taskId

def Operation.start : Operation → Handler
  | offer _ furniture _ => .hasOffered furniture
  | accept _ taskId item => .acceptDialog taskId item
  | reject _ taskId item => .rejectDialog taskId item
  | report _ furniture _ => .noReported furniture

/-- What the user enters; a dialog is not dismissed. -/
def Operation.Enters : Operation → Input → Prop
  | _, .dismiss => False
  | offer _ _ price, .add p => p = price.val
  | report _ _ reason, .submit r => r = reason
  | _, _ => True

instance (op : Operation) (input : Input) : Decidable (op.Enters input) := by
  apply Operation.casesOn (motive := fun op => Decidable (op.Enters input)) op <;> intros <;>
    apply Input.casesOn (motive := fun i => Decidable (Operation.Enters _ i)) input <;> intros <;>
    unfold Operation.Enters <;> infer_instance

inductive Move where
  | input (input : Input)
  | write

def Operation.Can (op : Operation) (s : Store) (handler : Handler) : Move → Prop
  | .input input => op.Enters input ∧ handler.Enabled s input
  | .write => handler.calls ≠ []

instance (op : Operation) (s : Store) (handler : Handler) (move : Move) :
    Decidable (op.Can s handler move) := by
  cases move <;> unfold Operation.Can <;> infer_instance

def Operation.move (op : Operation) (s : Store) : Handler → Move → Store × Handler
  | handler, .input input => (s, handler.next op.uid input)
  | .writing job (call :: calls), .write => (call.write.apply s, .writing job calls)
  | handler, .write => (s, handler)

inductive Side where
  | first | second
  deriving DecidableEq, Repr

def Side.other : Side → Side
  | first => second
  | second => first

structure Pair where
  store : Store
  handlers : Side → Handler

structure Turn where
  side : Side
  move : Move

def Pair.put (d : Pair) (side : Side) (next : Store × Handler) : Pair :=
  ⟨next.1, Function.update d.handlers side next.2⟩

def together (ops : Side → Operation) (s : Store) : Transition.System Pair Turn where
  init := ⟨s, fun side => (ops side).start⟩
  Enabled d turn := (ops turn.side).Can d.store (d.handlers turn.side) turn.move
  perform d turn := d.put turn.side ((ops turn.side).move d.store (d.handlers turn.side) turn.move)

instance (ops : Side → Operation) (s : Store) (d : Pair) (turn : Turn) :
    Decidable ((together ops s).Enabled d turn) := by
  unfold together; infer_instance

/-- Nothing is left to do: the question was answered otherwise, or all has been written. -/
def Handler.Finished : Handler → Prop
  | .done | .writing _ [] => True
  | _ => False

instance (handler : Handler) : Decidable handler.Finished := by
  unfold Handler.Finished; split <;> infer_instance

def Pair.Finished (d : Pair) : Prop :=
  ∀ side, (d.handlers side).Finished

end Oun
