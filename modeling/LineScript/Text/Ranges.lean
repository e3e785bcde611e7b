/-!
# Ranges of characters

A property of characters is given by the ranges of code points that have it.
-/

namespace LineScript.Text

/-- ranges of code points, first and last included -/
abbrev Ranges := List (Nat × Nat)

def Ranges.has (ranges : Ranges) (c : Char) : Bool :=
  ranges.any fun (first, last) => first ≤ c.toNat && c.toNat ≤ last

end LineScript.Text
