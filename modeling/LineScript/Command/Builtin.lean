import LineScript.Command.Basic
import LineScript.Number.Arithmetic

/-!
# The built-in commands

What each name does where nothing else is registered under it.  The four log commands take all
values and join their texts by single spaces; the others read one or two operands and ignore what
follows these.

* `CommandName.handler`   what a name does;
* `CommandName.needs`     how many values its handler reads;
* `CommandName.arity`     how many values it takes;
* `CommandName.builtin`   the three together.
-/

namespace LineScript

/-! ## kinds of handlers -/

/-- the texts of values, with single spaces between -/
def joined (values : List Value) : String :=
  " ".intercalate (values.map Value.display)

def logging (severity : Severity) : Handler :=
  fun values => .done (.log severity (joined values))

def halting (severity : Severity) : Handler :=
  fun values => .done (.halt severity (joined values))

def onOne (f : Value → Reply) : Handler
  | a :: _ => f a
  | values => .failed (.missingOperand 1 values.length)

def onTwo (f : Value → Value → Reply) : Handler
  | a :: b :: _ => f a b
  | values => .failed (.missingOperand 2 values.length)

/-- an operation on the numbers of two values -/
def arithmetic (op : Number → Number → Number) : Handler :=
  onTwo fun a b => .done (.value (.number (op a.asNumber b.asNumber)))

/-! ## particular commands -/

/-- two numbers are added, any other two values are written one behind the other -/
def sum : Value → Value → Value
  | .number m, .number n => .number (m.add n)
  | a, b => .text (a.display ++ b.display)

/-- the quotient, or a failure where the divisor is a zero -/
def quotient (a b : Value) : Reply :=
  if b.asNumber.isZero then .failed .divisionByZero
  else .done (.value (.number (a.asNumber.div b.asNumber)))

namespace CommandName

def handler : CommandName → Handler
  | .print => logging .info
  | .warn => logging .warning
  | .error => halting .error
  | .stop => halting .halt
  | .add => onTwo fun a b => .done (.value (sum a b))
  | .sub => arithmetic Number.sub
  | .mul => arithmetic Number.mul
  | .div => onTwo quotient
  | .pow => arithmetic Number.pow
  | .equals => onTwo fun a b => .done (.value (.bool (a.equals b)))
  | .not => onOne fun a => .done (.value (.bool !a.isTruthy))

def needs : CommandName → Nat
  | .print | .warn | .error | .stop => 0
  | .not => 1
  | .add | .sub | .mul | .div | .pow | .equals => 2

def arity : CommandName → Arity
  | .print | .warn | .error | .stop => .variadic
  | .not => .fixed 1
  | .add | .sub | .mul | .div | .pow | .equals => .fixed 2

def builtin (n : CommandName) : Command := ⟨n, n.arity, n.handler⟩

end CommandName

end LineScript
