import LineScript.Number.Basic

/-!
# Arithmetic

Sums, differences, products, quotients and powers of numbers are those of 64-bit floating-point
arithmetic: the exact result rounded to the nearest number, except that a power is what the
platform's `pow` gives.
-/

namespace LineScript.Number

def toFloat (n : Number) : Float := Float.ofBits n.toBits

def ofFloat (x : Float) : Number := ofBits x.toBits

/-- an operation on floating-point numbers, as one on numbers -/
def lift (op : Float → Float → Float) (a b : Number) : Number :=
  ofFloat (op a.toFloat b.toFloat)

def add : Number → Number → Number := lift (· + ·)

def sub : Number → Number → Number := lift (· - ·)

def mul : Number → Number → Number := lift (· * ·)

def div : Number → Number → Number := lift (· / ·)

def pow : Number → Number → Number := lift Float.pow

end LineScript.Number
