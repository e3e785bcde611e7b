import LineScript.Command.Name

/-!
# Failures

What can go wrong while a line is run.  A failure is a cause; its wording is `Failure.message` and
nowhere else.
-/

namespace LineScript

inductive Failure where
  /-- no registered command has this name -/
  | unknownCommand (word : String)
  | divisionByZero
  /-- a command of fixed arity was given too few values -/
  | arityMismatch (name : CommandName) (expected got : Nat)
  /-- a command stood deeper inside others than the limit allows -/
  | depthExceeded (limit : Nat)
  /-- a handler was run on fewer values than it reads, which the arity of a command is there to
  rule out -/
  | missingOperand (needed got : Nat)
deriving DecidableEq, Repr

namespace Failure

def countArguments (n : Nat) : String :=
  toString n ++ if n = 1 then " argument" else " arguments"

def message : Failure → String
  | .unknownCommand word => "Command \"" ++ word ++ "\" Not Found."
  | .divisionByZero => "Division by zero."
  | .arityMismatch name expected got =>
    "Command \"" ++ name.word ++ "\" expects " ++ countArguments expected ++ ", got " ++ toString got
      ++ "."
  | .depthExceeded limit => "Maximum nesting depth of " ++ toString limit ++ " exceeded."
  | .missingOperand needed got =>
    "Missing operand: " ++ toString needed ++ " needed, got " ++ toString got ++ "."

end Failure

end LineScript
