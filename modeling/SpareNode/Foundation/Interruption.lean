import Mathlib.Data.Int.Notation

/-! # Interruption

Cooperative cancellation and absolute deadlines, looked at together: a request to stop comes
before the expiry of a deadline. Time is the steady clock's.
-/
namespace SpareNode.Concurrency

inductive InterruptionStatus where
  | none | cancelled | deadlineExceeded
deriving DecidableEq, Repr

/-- What a call sees of its stop token and of the clock at one moment. -/
structure Moment where
  stopRequested : Bool
  now : ℤ
deriving DecidableEq, Repr

def interruptionStatus (moment : Moment) (deadline : Option ℤ) : InterruptionStatus :=
  if moment.stopRequested then .cancelled
  else
    match deadline with
    | some d => if d ≤ moment.now then .deadlineExceeded else .none
    | none => .none

end SpareNode.Concurrency
