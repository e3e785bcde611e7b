import LineScript.Number.Rounding

/-!
# The text of a number

A finite number is written with the fewest digits that read back as the same number; of several
such texts the one nearest to the number is taken, and of two that are equally near the greater.
Digits are never followed by an exponent: a number is written in full, zeros included.

Every finite number reads back from a multiple of `10 ^ -324`, so a text is chosen as a count of
these: `shortest r` is a count that is a multiple of the greatest power of ten.

* `readsBack r n`   the rank nearest to `n * 10 ^ -324` is `r`;
* `shortest r`      the count that is written for the rank `r`;
* `Number.text`     the text of a number.
-/

namespace LineScript

/-! ## choosing the digits -/

/-- the count `n` of `10 ^ -324` is nearest to the rank `r` -/
def readsBack (r n : Nat) : Bool :=
  nearestRank (n <<< 1074) (tenPow 324) == r

/-- the two multiples of `10 ^ j` on either side of the rank `r`, the nearer first, and of two that
are equally near the greater; a rank that is itself a multiple has the next one beside it -/
def neighbours (r j : Nat) : List Nat :=
  let num := units r * tenPow 324
  let den := tenPow j <<< 1074
  let below := num / den
  if 2 * (num % den) < den then [below * tenPow j, (below + 1) * tenPow j]
  else [(below + 1) * tenPow j, below * tenPow j]

/-- of the grids of multiples of `10 ^ j` the coarsest that can hold a count nearest to the rank: the
next power of ten is more than ten times the rank itself -/
def coarsest (r : Nat) : Nat :=
  (Nat.toDigits 10 ((units r * tenPow 324) >>> 1074)).length

/-- the first hit, from the coarsest grid to the finest -/
def shortest (r : Nat) : Nat :=
  ((List.range (coarsest r + 1)).reverse.findSome? fun j =>
    (neighbours r j).find? (readsBack r)).getD 0

/-! ## writing them -/

def dropZeroEnd (ds : List Char) : List Char :=
  (ds.reverse.dropWhile (· == '0')).reverse

/-- the 324 digits behind the point, without the zeros at their end -/
def fractionDigits (n : Nat) : List Char :=
  let ds := Nat.toDigits 10 n
  dropZeroEnd (List.replicate (324 - ds.length) '0' ++ ds)

/-- a count of `10 ^ -324` in positional notation -/
def positional (n : Nat) : List Char :=
  Nat.toDigits 10 (n / tenPow 324) ++
    if n % tenPow 324 = 0 then [] else '.' :: fractionDigits (n % tenPow 324)

/-- the text of a finite number; a zero has no sign -/
def finiteText (negative : Bool) (rank : Nat) : List Char :=
  (if negative && rank != 0 then ['-'] else []) ++ positional (shortest rank)

def Number.text : Number → String
  | .nan => "NaN"
  | .infinite false => "Infinity"
  | .infinite true => "-Infinity"
  | .finite negative rank => String.ofList (finiteText negative rank.val)

end LineScript
