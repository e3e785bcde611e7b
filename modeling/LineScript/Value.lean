import LineScript.Literal
import LineScript.Number.Shortest
import LineScript.Text.Blank

/-!
# Values

Scripts are dynamically typed: a value is a text, a number or a truth value.  A bare word of a
script is classified once, by `Value.ofLiteral`; commands look at a value through the views below.

* `Value.ofLiteral`  the value a bare word stands for;
* `Value.display`    the text of a value, as it is logged;
* `Value.asNumber`   the number arithmetic sees; a text that is no literal is `nan`;
* `Value.isTruthy`   the truth value a condition sees;
* `Value.equals`     values of different kinds are never equal.
-/

namespace LineScript

inductive Value where
  | text (s : String)
  | number (n : Number)
  | bool (b : Bool)
deriving DecidableEq, Repr

namespace Value

/-- what stands for a value that is absent -/
def absent : Value := .bool true

instance : Inhabited Value := ⟨absent⟩

/-! ## literals -/

/-- `true` and `false` are truth values, finite decimal literals are numbers, all else is text -/
def ofLiteral (word : String) : Value :=
  if word = "true" then .bool true
  else if word = "false" then .bool false
  else match Number.read? word with
    | some n => .number n
    | none => .text word

/-! ## views -/

def display : Value → String
  | .text s => s
  | .number n => n.text
  | .bool b => if b then "true" else "false"

/-- a truth value counts as one or zero; a text is read as a literal between white space -/
def asNumber : Value → Number
  | .text s => (Number.read? (Text.trim s)).getD .nan
  | .number n => n
  | .bool b => if b then .one else .zero

/-- `false`, zeros, `nan` and the empty text are not truthy -/
def isTruthy : Value → Bool
  | .text s => s != ""
  | .number n => !n.isZero && !n.isNaN
  | .bool b => b

def equals : Value → Value → Bool
  | .text s, .text t => s == t
  | .number m, .number n => m.equals n
  | .bool a, .bool b => a == b
  | _, _ => false

theorem equals_nan (v : Value) : equals (.number .nan) v = false := by
  cases v <;> rfl

end Value

end LineScript
