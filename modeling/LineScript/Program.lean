import LineScript.Text.Split
import LineScript.Text.Utf8

/-!
# Programs

A program is a text or a list of lines.  A text is cut at its line feeds; a line of a list is kept as
it is, even if it holds line feeds of its own.

* `effectiveLines`      the lines of a list that do something, trimmed;
* `Program.rawLines`    the lines of a program as they were given;
* `Program.effective`   the lines that do something, trimmed, with their numbers from 1;
* `Program.ofBytes`     the program that some bytes are the text of.

Only whole lines can be comments.
-/

namespace LineScript

inductive Program where
  | source (text : String)
  | lines (ls : List String)
deriving DecidableEq, Repr

/-! ## lines -/

/-- what a comment starts with -/
def commentMarks : List String := ["//", "/*", "--"]

def isComment (line : String) : Bool :=
  commentMarks.any fun mark => mark.toList.isPrefixOf line.toList

/-- a line does something if it is neither blank nor a comment -/
def isEffective (trimmed : String) : Bool :=
  trimmed != "" && !isComment trimmed

/-- the lines that do something, trimmed, numbered from `first` as they were given -/
def effectiveFrom (first : Nat) (lines : List String) : List (Nat × String) :=
  ((lines.zipIdx first).map fun (line, n) => (n, Text.trim line)).filter fun (_, line) =>
    isEffective line

/-- the lines that do something, trimmed, without their numbers -/
def effectiveLines (lines : List String) : List String :=
  (effectiveFrom 1 lines).map (·.2)

theorem effectiveFrom_nil (first : Nat) : effectiveFrom first [] = [] := rfl

theorem effectiveFrom_cons (first : Nat) (line : String) (lines : List String) :
    effectiveFrom first (line :: lines) =
      (if isEffective (Text.trim line) then [(first, Text.trim line)] else [])
        ++ effectiveFrom (first + 1) lines := by
  simp only [effectiveFrom, List.zipIdx_cons, List.map_cons, List.filter_cons]
  split <;> rfl

theorem effectiveFrom_append (first : Nat) (a b : List String) :
    effectiveFrom first (a ++ b) = effectiveFrom first a ++ effectiveFrom (first + a.length) b := by
  simp [effectiveFrom, List.zipIdx_append]

namespace Program

def rawLines : Program → List String
  | .source text => Text.lines text
  | .lines ls => ls

def effective (p : Program) : List (Nat × String) :=
  effectiveFrom 1 p.rawLines

end Program

/-! ## bytes -/

/-- bytes that are no text: the sequence behind the first `offset` bytes is bad -/
structure BinaryData where
  offset : Nat
deriving DecidableEq, Repr

def BinaryData.message (d : BinaryData) : String :=
  "expected program text or a list of lines, got binary data (invalid UTF-8 at byte "
    ++ toString d.offset ++ ")"

def Program.ofBytes (bytes : List UInt8) : Except BinaryData Program :=
  match Text.Utf8.decode bytes with
  | .ok text => .ok (.source text)
  | .error offset => .error ⟨offset⟩

end LineScript
