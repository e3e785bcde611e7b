import LineScript.Log.Entry

/-!
# Entries on the wire

Hosts exchange entries as texts: the code of the severity, a comma and the message, which may hold
commas of its own.

* `Entry.encode`    the text of an entry;
* `Entry.decode?`   the entry of a text.  The code may have a plus sign and zeros in front;
* `Entry.renderEncoded?`   the entry of a text as a person reads it.
-/

namespace LineScript

/-! ## writing -/

def Entry.encode (e : Entry) : String :=
  toString e.severity.code ++ "," ++ e.message

/-! ## reading -/

/-- a text without a plus sign in front -/
def dropPlus : List Char → List Char
  | '+' :: cs => cs
  | cs => cs

/-- the natural number of some digits, with a plus sign in front or without -/
def readCode? (cs : List Char) : Option Nat :=
  let ds := dropPlus cs
  if ds ≠ [] ∧ ds.all Char.isDigit then some (Nat.ofDigitChars 10 ds 0) else none

/-- the parts in front of and behind the first comma -/
def splitComma? (cs : List Char) : Option (List Char × List Char) :=
  match cs.dropWhile (· != ',') with
  | [] => none
  | _ :: message => some (cs.takeWhile (· != ','), message)

def Entry.decode? (s : String) : Option Entry := do
  let (code, message) ← splitComma? s.toList
  let severity ← Severity.ofCode? (← readCode? code)
  return ⟨severity, String.ofList message⟩

def Entry.renderEncoded? (s : String) : Option String := (decode? s).map render

theorem splitComma?_append {code : List Char} (h : ',' ∉ code) (message : List Char) :
    splitComma? (code ++ ',' :: message) = some (code, message) := by
  have hp : ∀ c ∈ code, (c != ',') = true := fun c hc => by
    simp only [bne_iff_ne]
    rintro rfl
    exact h hc
  simp [splitComma?, List.dropWhile_append_of_pos hp, List.takeWhile_append_of_pos hp]

theorem Entry.toList_encode (e : Entry) :
    e.encode.toList = Nat.toDigits 10 e.severity.code ++ ',' :: e.message.toList := by
  simp [encode]

end LineScript
