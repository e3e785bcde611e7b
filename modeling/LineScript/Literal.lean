import LineScript.Number.Rounding

/-!
# Decimal literals

A literal is an optional sign, digits with an optional point among, in front of or behind them, and
an optional exponent:

    [+-]? ( [0-9]+ ( . [0-9]* )? | . [0-9]+ ) ( [eE] [+-]? [0-9]+ )?

Only the ten ASCII digits count, and nothing may precede or follow.  A literal that is nearest to an
infinite number is not the literal of a number.

* `Literal.read?`   the literal that some characters are;
* `Number.read?`    the number that a text is the literal of.
-/

namespace LineScript

/-- the number `digits * 10 ^ exponent` with a sign, as it was written -/
structure Literal where
  negative : Bool
  digits : Nat
  exponent : Int
deriving DecidableEq, Repr

namespace Literal

/-! ## parts -/

/-- an optional sign: whether it is a minus, and what follows -/
def readSign : List Char → Bool × List Char
  | '-' :: cs => (true, cs)
  | '+' :: cs => (false, cs)
  | cs => (false, cs)

/-- the digits at the front, and what follows -/
def readDigits (cs : List Char) : List Char × List Char :=
  (cs.takeWhile Char.isDigit, cs.dropWhile Char.isDigit)

/-- the digits behind an optional point, and what follows -/
def readFraction : List Char → List Char × List Char
  | '.' :: cs => readDigits cs
  | cs => ([], cs)

/-- an exponent that ends the literal; none written is the exponent zero -/
def readExponent? : List Char → Option Int
  | [] => some 0
  | mark :: cs =>
    let (negative, ds) := readSign cs
    if (mark = 'e' ∨ mark = 'E') ∧ ds ≠ [] ∧ ds.all Char.isDigit then
      let size : Int := Nat.ofDigitChars 10 ds 0
      some (if negative then -size else size)
    else none

theorem readDigits_append (cs : List Char) : (readDigits cs).1 ++ (readDigits cs).2 = cs :=
  List.takeWhile_append_dropWhile

theorem isDigit_of_mem_readDigits {cs : List Char} {c : Char} (h : c ∈ (readDigits cs).1) :
    c.isDigit := List.all_eq_true.mp List.all_takeWhile c h

/-! ## whole literals -/

/-- the literal that some characters are; digits behind the point lower the exponent -/
def read? (cs : List Char) : Option Literal :=
  let (negative, cs) := readSign cs
  let (whole, cs) := readDigits cs
  let (fraction, cs) := readFraction cs
  if whole = [] ∧ fraction = [] then none
  else (readExponent? cs).map fun exponent =>
    ⟨negative, Nat.ofDigitChars 10 (whole ++ fraction) 0, exponent - fraction.length⟩

def nearest (l : Literal) : Number :=
  Number.ofDecimal l.negative l.digits l.exponent

end Literal

namespace Number

def isFinite : Number → Bool
  | .finite .. => true
  | _ => false

/-- the finite number that a text is the literal of -/
def read? (s : String) : Option Number :=
  ((Literal.read? s.toList).map Literal.nearest).filter isFinite

theorem isFinite_of_read? {s : String} {n : Number} (h : read? s = some n) : n.isFinite :=
  (Option.filter_eq_some_iff.mp h).2

end Number

end LineScript
