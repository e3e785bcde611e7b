import LineScript.Failure
import LineScript.Log.Entry
import LineScript.Value

/-!
# What a command gives back

* `Outcome`   a value for the command around it, an entry for the log, and whether to stop; each
              of the three is there or not on its own;
* `Reply`     an outcome, or the failure that kept a command from having one.

A failure keeps its cause until it is logged: `Reply.outcome` words it as an entry and stops.  A missing
operand is never logged: it ends the program that runs the script (`Reply.isShort`).
-/

namespace LineScript

/-! ## outcomes -/

structure Outcome where
  value? : Option Value
  entry? : Option Entry
  stops : Bool
deriving DecidableEq, Repr

namespace Outcome

def nothing : Outcome := ⟨none, none, false⟩

def value (v : Value) : Outcome := ⟨some v, none, false⟩

def log (severity : Severity) (message : String) : Outcome := ⟨none, some ⟨severity, message⟩, false⟩

def halt (severity : Severity) (message : String) : Outcome := ⟨none, some ⟨severity, message⟩, true⟩

def failure (f : Failure) : Outcome := halt .error f.message

/-- the value that the command around sees -/
def valueD (o : Outcome) : Value := o.value?.getD .absent

/-- the entry, as the part of a log that it makes up -/
def entries (o : Outcome) : List Entry := o.entry?.toList

end Outcome

/-! ## replies -/

inductive Reply where
  | done (o : Outcome)
  | failed (f : Failure)
deriving DecidableEq, Repr

namespace Reply

def outcome : Reply → Outcome
  | .done o => o
  | .failed f => .failure f

def stops (r : Reply) : Bool := r.outcome.stops

/-- the reply of a handler for which there was an operand too few -/
def isShort : Reply → Bool
  | .failed (.missingOperand _ _) => true
  | _ => false

theorem stops_failed (f : Failure) : (failed f).stops = true := rfl

theorem stops_of_isShort {r : Reply} (h : r.isShort) : r.stops := by
  cases r with
  | done o => cases h
  | failed f => rfl

end Reply

end LineScript
