import LineScript.Text.Blank
import LineScript.Value

/-!
# Arguments

The words behind the first word of a line are its arguments.  A word that is bound stands for its
value, a word between double quotes for the text between them, and any other word for itself.

* `binding?`                the value of a bound word; scripts cannot bind words of their own;
* `Argument.ofWord`         the argument that a word is;
* `Argument.commandWord?`   the word by which an argument could call a command;
* `Argument.value`          the value of an argument that calls none.
-/

namespace LineScript

/-! ## bound words -/

/-- the version of the language -/
def version : String := "0.7.3"

/-- what scripts are told the language runs on -/
def host : String := "rust"

def binding? (word : String) : Option Value :=
  if word = "_VERSION" then some (.text version)
  else if word = "_LANG" then some (.text host)
  else none

/-! ## arguments -/

inductive Argument where
  /-- a bare word, classified when its value is needed -/
  | word (w : String)
  /-- a text between double quotes, which never calls a command -/
  | quoted (s : String)
  /-- the value of a bound word, which calls a command if it is the word of one -/
  | bound (v : Value)
deriving DecidableEq, Repr

/-- the characters between a double quote at the front and another at the end -/
def unquote? : List Char → Option (List Char)
  | '"' :: cs => if cs.getLast? = some '"' then some cs.dropLast else none
  | _ => none

theorem unquote?_quoted (cs : List Char) : unquote? ('"' :: (cs ++ ['"'])) = some cs := by
  simp [unquote?]

namespace Argument

/-- a bound word is looked up before quotes are looked for -/
def ofWord (w : String) : Argument :=
  match binding? w with
  | some v => .bound v
  | none =>
    match unquote? w.toList with
    | some cs => .quoted (String.ofList cs)
    | none => .word w

def commandWord? : Argument → Option String
  | .word w => some w
  | .bound (.text s) => some s
  | _ => none

def value : Argument → Value
  | .word w => .ofLiteral w
  | .quoted s => .text s
  | .bound v => v

theorem value_quoted (s : String) : value (.quoted s) = .text s := rfl

end Argument

end LineScript
