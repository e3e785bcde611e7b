import LineScript.Outcome

/-!
# Commands

* `Arity`           how many of the values after it a command takes;
* `Handler`         what a command does with them;
* `Command.run`     checks the number of values, then runs the handler;
* `Command.invoke`  the same, with a failure worded as an entry.

The number of values is checked against the arity and not against what the handler reads, so an operand
can be missing all the same.  Then there is no answer: `Command.run?` and `Command.invoke?` give
nothing, and `Command.run` says which operand was missing.
-/

namespace LineScript

/-! ## arities -/

inductive Arity where
  | fixed (count : Nat)
  | variadic
deriving DecidableEq, Repr

/-- the arity that is left once one value has been taken -/
def Arity.pred : Arity → Arity
  | .fixed count => .fixed (count - 1)
  | .variadic => .variadic

/-- no value is wanted any more -/
def Arity.isFull : Arity → Bool
  | .fixed count => count == 0
  | .variadic => false

/-- how many values room is made for before they are looked for; a command that takes all that is left
asks for no room that is not there -/
def Arity.reserved : Arity → Nat
  | .fixed count => count
  | .variadic => 0

def Arity.describe : Arity → String
  | .fixed count => "Fixed(" ++ toString count ++ ")"
  | .variadic => "Variadic"

/-! ## commands -/

abbrev Handler := List Value → Reply

structure Command where
  name : CommandName
  arity : Arity
  handler : Handler

namespace Command

/-- a command of fixed arity fails on too few values; the handler sees all that it is given -/
def run (c : Command) (values : List Value) : Reply :=
  match c.arity with
  | .variadic => c.handler values
  | .fixed count =>
    if values.length < count then .failed (.arityMismatch c.name count values.length)
    else c.handler values

def invoke (c : Command) (values : List Value) : Outcome :=
  (c.run values).outcome

/-- the reply of a command whose handler finds all the operands that it reads -/
def run? (c : Command) (values : List Value) : Option Reply :=
  let reply := c.run values
  if reply.isShort then none else some reply

def invoke? (c : Command) (values : List Value) : Option Outcome :=
  (c.run? values).map Reply.outcome

/-- a command in one line, without its handler -/
def describe (c : Command) : String :=
  "Command \x7b id: " ++ c.name.title ++ ", arity: " ++ c.arity.describe ++ ", .. \x7d"

theorem run?_eq_some_iff {c : Command} {values : List Value} {reply : Reply} :
    c.run? values = some reply ↔ reply = c.run values ∧ ¬reply.isShort := by
  unfold run?
  by_cases hs : (c.run values).isShort
  · simp only [hs, if_true]
    exact ⟨nofun, fun h => absurd (h.1 ▸ hs) h.2⟩
  · simp only [if_neg hs, Option.some.injEq]
    exact ⟨fun h => ⟨h.symm, h ▸ hs⟩, fun h => h.1.symm⟩

theorem run_variadic {c : Command} (h : c.arity = .variadic) (values : List Value) :
    c.run values = c.handler values := by
  simp [run, h]

theorem run_of_lt {c : Command} {count : Nat} (h : c.arity = .fixed count) {values : List Value}
    (hv : values.length < count) :
    c.run values = .failed (.arityMismatch c.name count values.length) := by
  simp [run, h, hv]

theorem run_of_le {c : Command} {count : Nat} (h : c.arity = .fixed count) {values : List Value}
    (hv : count ≤ values.length) : c.run values = c.handler values := by
  simp [run, h, Nat.not_lt.mpr hv]

end Command

end LineScript
