import LineScript.Number.Basic

/-!
# Rounding to the nearest number

A quotient of natural numbers is rounded to the nearest magnitude, a tie to the one of even rank.
Both steps are exact: the quotient is never formed as a number of limited precision.

* `roundDiv`            a quotient rounded to an integer;
* `nearestRank`         the rank nearest to a quotient of units; a rank of `rankCount` or more stands
                        for a quotient beyond the finite numbers;
* `Number.ofDecimal`    the number nearest to `digits * 10 ^ exponent`.
-/

namespace LineScript

/-- a quotient rounded to the nearest integer, a tie to the even one -/
def roundDiv (num den : Nat) : Nat :=
  let q := num / den
  let r := num % den
  if 2 * r < den ∨ 2 * r = den ∧ q % 2 = 0 then q else q + 1

/-- the rank nearest to `num / den` units: within a block neighbours are equally far apart, so the
quotient is rounded to a multiple of their distance -/
def nearestRank (num den : Nat) : Nat :=
  let block := (num / den).log2 - 52
  block * blockSize + roundDiv num (den <<< block)

def tenPow (n : Nat) : Nat := Nat.pow 10 n

namespace Number

def decimalRank (digits : Nat) (exponent : Int) : Nat :=
  nearestRank ((digits * tenPow exponent.toNat) <<< 1074) (tenPow (-exponent).toNat)

/-- the number nearest to `digits * 10 ^ exponent`.  Exponents that put it beyond the last rank, or
below half a unit, are answered at once: their powers could not be formed. -/
def ofDecimal (negative : Bool) (digits : Nat) (exponent : Int) : Number :=
  if digits = 0 then ofRank negative 0
  else if 309 ≤ exponent then .infinite negative
  else if (digits.log2 + 1 : Int) + 3 * exponent ≤ -1075 then ofRank negative 0
  else ofRank negative (decimalRank digits exponent)

end Number

end LineScript
