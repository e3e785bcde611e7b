/-!
# Numbers

A number of the language is a 64-bit binary floating-point number, in which all values that are not
a number are one and a zero has a sign.

The finite magnitudes are counted from zero upwards: the magnitude of rank `r` has `units r` times
the least positive magnitude `2 ^ -1074`.  Every `blockSize` ranks are a block.  In the first two
blocks neighbours are one unit apart, and from there on twice as far as in the block before.  The
rank is also what the number is stored as, without the bit of its sign.

* `units`            the magnitude of a rank;
* `Number`           numbers; `Number.toBits`, `Number.ofBits` their 64 bits;
* `Number.equals`    equality of numbers: zeros are equal and nothing equals `nan`.
-/

namespace LineScript

/-! ## magnitudes -/

/-- the number of ranks in a block: `2 ^ 52` -/
def blockSize : Nat := 0x10000000000000

/-- the number of finite magnitudes -/
def rankCount : Nat := 2047 * blockSize

/-- the magnitude of a rank, in units of the least positive one -/
def units (rank : Nat) : Nat :=
  if rank < blockSize then rank
  else (blockSize + rank % blockSize) <<< (rank / blockSize - 1)

theorem units_zero : units 0 = 0 := rfl

theorem units_of_lt {r : Nat} (h : r < blockSize) : units r = r := if_pos h

/-! ## numbers -/

inductive Number where
  | nan
  | infinite (negative : Bool)
  | finite (negative : Bool) (rank : Fin rankCount)
deriving DecidableEq, Repr

namespace Number

def zero : Number := .finite false ⟨0, by decide⟩

def one : Number := .finite false ⟨1023 * blockSize, by decide⟩

/-- the finite number of a rank, or an infinite one beyond the last rank -/
def ofRank (negative : Bool) (rank : Nat) : Number :=
  if h : rank < rankCount then .finite negative ⟨rank, h⟩ else .infinite negative

theorem ofRank_val (negative : Bool) (rank : Fin rankCount) :
    ofRank negative rank.val = .finite negative rank := dif_pos rank.isLt

theorem ofRank_of_le (negative : Bool) {rank : Nat} (h : rankCount ≤ rank) :
    ofRank negative rank = .infinite negative := dif_neg (Nat.not_lt.mpr h)

def isZero : Number → Bool
  | .finite _ rank => rank.val == 0
  | _ => false

def isNaN : Number → Bool
  | .nan => true
  | _ => false

/-- equality of numbers, which is not equality of their bits -/
def equals : Number → Number → Bool
  | .infinite a, .infinite b => a == b
  | .finite a r, .finite b s => r == s && (a == b || r.val == 0)
  | _, _ => false

theorem equals_self {n : Number} : n.equals n = !n.isNaN := by
  cases n <;> simp [equals, isNaN]

/-! ## bits -/

/-- the bit of the sign: `2 ^ 63` -/
def signBit : Nat := 0x8000000000000000

/-- a rank with its sign -/
def signed (negative : Bool) (rank : Nat) : UInt64 :=
  UInt64.ofNat (if negative then signBit + rank else rank)

/-- the 64 bits of a number; the one `nan` is a quiet one without a sign -/
def toBits : Number → UInt64
  | .nan => 0x7FF8000000000000
  | .infinite negative => signed negative rankCount
  | .finite negative rank => signed negative rank.val

def ofBits (bits : UInt64) : Number :=
  let rank := bits.toNat % signBit
  if rank ≤ rankCount then ofRank (signBit ≤ bits.toNat) rank else .nan

theorem ofBits_signed (negative : Bool) {rank : Nat} (h : rank ≤ rankCount) :
    ofBits (signed negative rank) = ofRank negative rank := by
  have hr : rank < signBit := Nat.lt_of_le_of_lt h (by decide)
  cases negative with
  | false =>
    have ht : (signed false rank).toNat = rank := by
      simp only [signBit] at hr
      simp [signed]
      omega
    simp [ofBits, ht, Nat.mod_eq_of_lt hr, h, Nat.not_le.mpr hr]
  | true =>
    have ht : (signed true rank).toNat = signBit + rank := by
      simp only [signBit] at hr
      simp [signed, signBit]
      omega
    simp [ofBits, ht, Nat.mod_eq_of_lt hr, h]

theorem ofBits_toBits (n : Number) : ofBits n.toBits = n := by
  rcases n with _ | negative | ⟨negative, rank⟩
  · decide
  · rw [toBits, ofBits_signed negative (Nat.le_refl _), ofRank_of_le negative (Nat.le_refl _)]
  · rw [toBits, ofBits_signed negative (Nat.le_of_lt rank.isLt), ofRank_val]

end Number

end LineScript
