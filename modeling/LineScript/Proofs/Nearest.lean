import Mathlib.Algebra.Order.Field.Power
import Mathlib.Algebra.Order.Field.Rat
import Mathlib.Tactic.FieldSimp
import Mathlib.Tactic.Linarith
import Mathlib.Tactic.Positivity
import Mathlib.Tactic.Ring
import LineScript.Number.Rounding

/-!
# The nearest number

What rounding is: a rank is nearest to a quotient if no other magnitude is as near, or if those that
are as near have an odd rank.  The magnitudes of all ranks count, also of those beyond the last finite
one, so that a quotient half a step below the first of these is already nearer to it.

* `units_block`             within a block, and at its end, neighbours are equally far apart;
* `magnitude`               the magnitude of a rank as a rational number;
* `Nearest`                 the rank nearest to a rational number, of which there is just one;
* `nearest_nearestRank`     this is the rank that a quotient is rounded to;
* `Number.IsNearest`        the number nearest to a sign and a magnitude;
* `Number.isNearest_ofDecimal`   this is the number that a decimal is read as.
-/

namespace LineScript

/-! ## magnitudes -/

theorem blockSize_pos : 0 < blockSize := by decide

/-- in a block, and at the first rank behind it, a step is `2 ^ block` units -/
theorem units_block {block m : Nat} (h : block = 0 ∨ blockSize ≤ m) (hm : m ≤ 2 * blockSize) :
    units (block * blockSize + m) = m * 2 ^ block := by
  have hB := blockSize_pos
  by_cases hlow : m < blockSize
  · have hzero : block = 0 := h.resolve_right (Nat.not_le.mpr hlow)
    rw [hzero, Nat.zero_mul, Nat.zero_add, units_of_lt hlow, Nat.pow_zero, Nat.mul_one]
  have hle : blockSize ≤ m := Nat.not_lt.mp hlow
  have hnot : ¬block * blockSize + m < blockSize :=
    Nat.not_lt.mpr (Nat.le_trans hle (Nat.le_add_left _ _))
  rw [units, if_neg hnot, Nat.shiftLeft_eq]
  by_cases hend : m = 2 * blockSize
  · have hrank : block * blockSize + m = blockSize * (block + 2) := by
      rw [hend]
      ring
    rw [hrank, Nat.mul_mod_right, Nat.mul_div_cancel_left _ hB, hend, Nat.add_zero,
      Nat.add_sub_assoc (by decide), Nat.pow_succ]
    ring
  · have hlt : m - blockSize < blockSize := by omega
    have hrank : block * blockSize + m = m - blockSize + blockSize * (block + 1) := by
      rw [Nat.mul_comm, Nat.mul_add_one]
      omega
    rw [hrank, Nat.add_mul_mod_self_left, Nat.add_mul_div_left _ _ hB, Nat.mod_eq_of_lt hlt,
      Nat.div_eq_of_lt hlt, Nat.zero_add, Nat.add_sub_cancel, Nat.add_sub_cancel' hle]

/-- every rank stands in a block -/
theorem exists_block (rank : Nat) :
    ∃ block m, rank = block * blockSize + m ∧ (block = 0 ∨ blockSize ≤ m) ∧ m < 2 * blockSize := by
  have hB := blockSize_pos
  have hmod := Nat.mod_lt rank hB
  by_cases hlow : rank < blockSize
  · exact ⟨0, rank, by omega, Or.inl rfl, by omega⟩
  · have hdiv : 1 ≤ rank / blockSize := (Nat.one_le_div_iff hB).mpr (Nat.not_lt.mp hlow)
    refine ⟨rank / blockSize - 1, blockSize + rank % blockSize, ?_, Or.inr (by omega), by omega⟩
    have hsplit := Nat.div_add_mod' rank blockSize
    rw [← Nat.add_assoc, ← Nat.succ_mul, Nat.succ_eq_add_one, Nat.sub_add_cancel hdiv, hsplit]

theorem units_lt_succ (rank : Nat) : units rank < units (rank + 1) := by
  obtain ⟨block, m, rfl, h, hm⟩ := exists_block rank
  have hnext : block = 0 ∨ blockSize ≤ m + 1 := h.imp_right fun hle => Nat.le_succ_of_le hle
  rw [units_block h hm.le, Nat.add_assoc, units_block hnext hm]
  exact Nat.mul_lt_mul_of_pos_right (Nat.lt_succ_self m) (Nat.two_pow_pos block)

theorem units_strictMono : StrictMono units := strictMono_nat_of_lt_succ units_lt_succ

/-- the least positive magnitude -/
def leastMagnitude : ℚ := 1 / 2 ^ 1074

theorem leastMagnitude_pos : 0 < leastMagnitude := by
  unfold leastMagnitude
  positivity

def magnitude (rank : Nat) : ℚ := units rank * leastMagnitude

theorem magnitude_strictMono : StrictMono magnitude := by
  intro r s h
  have hunits : (units r : ℚ) < units s := by exact_mod_cast units_strictMono h
  exact mul_lt_mul_of_pos_right hunits leastMagnitude_pos

theorem magnitude_zero : magnitude 0 = 0 := by
  rw [magnitude, units_zero, Nat.cast_zero, zero_mul]

/-! ## the nearest rank -/

/-- a rank to which `x` is nearer than to any other, or as near and then it is even -/
def Nearest (rank : Nat) (x : ℚ) : Prop :=
  ∀ other, other ≠ rank →
    |magnitude rank - x| < |magnitude other - x| ∨
      |magnitude rank - x| = |magnitude other - x| ∧ Even rank

/-- what is nearer than a distance, or as near and then of even rank, is so for a greater distance -/
theorem nearer_trans {rank : Nat} {a b c : ℚ} (h : a < b ∨ a = b ∧ Even rank) (hbc : b ≤ c) :
    a < c ∨ a = c ∧ Even rank := by
  rcases h with hlt | ⟨rfl, heven⟩
  · exact Or.inl (lt_of_lt_of_le hlt hbc)
  · exact (lt_or_eq_of_le hbc).imp_right fun heq => ⟨heq, heven⟩

section
variable {r s : Nat} {x : ℚ}

/-- a rank below `x` has only to be compared with the next -/
theorem nearest_of_below (h : magnitude r ≤ x)
    (hnext : x - magnitude r < magnitude (r + 1) - x ∨
      x - magnitude r = magnitude (r + 1) - x ∧ Even r) : Nearest r x := by
  intro other hne
  rw [abs_sub_comm, abs_of_nonneg (sub_nonneg.mpr h)]
  rcases Nat.lt_or_gt_of_ne hne with hlt | hgt
  · have hmono := magnitude_strictMono hlt
    rw [abs_sub_comm, abs_of_nonneg (by linarith)]
    exact Or.inl (by linarith)
  · have hmono := magnitude_strictMono.monotone (Nat.succ_le_of_lt hgt)
    have hfar := le_abs_self (magnitude other - x)
    exact nearer_trans hnext (by linarith)

/-- a rank above `x` has only to be compared with the one before -/
theorem nearest_of_above (h : x ≤ magnitude (r + 1))
    (hprev : magnitude (r + 1) - x < x - magnitude r ∨
      magnitude (r + 1) - x = x - magnitude r ∧ Even (r + 1)) : Nearest (r + 1) x := by
  intro other hne
  rw [abs_of_nonneg (sub_nonneg.mpr h)]
  rcases Nat.lt_or_gt_of_ne hne with hlt | hgt
  · have hmono := magnitude_strictMono.monotone (Nat.le_of_lt_succ hlt)
    have hfar := neg_le_abs (magnitude other - x)
    exact nearer_trans hprev (by linarith)
  · have hmono := magnitude_strictMono hgt
    rw [abs_of_nonneg (by linarith)]
    exact Or.inl (by linarith)

theorem Nearest.abs_le (h : Nearest r x) (s : Nat) : |magnitude r - x| ≤ |magnitude s - x| := by
  by_cases hs : s = r
  · rw [hs]
  · rcases h s hs with hless | ⟨htie, -⟩
    · exact hless.le
    · exact htie.le

/-- between two ranks that are as near lies a third, or one of them is odd -/
theorem Nearest.not_lt (hr : Nearest r x) (hs : Nearest s x) : ¬r < s := by
  intro hlt
  have hmono := magnitude_strictMono hlt
  have hdist : |magnitude r - x| = |magnitude s - x| := le_antisymm (hr.abs_le s) (hs.abs_le r)
  have heven : Even r := ((hr s hlt.ne').resolve_left hdist.not_lt).2
  have heven' : Even s := ((hs r hlt.ne).resolve_left hdist.not_gt).2
  have hbetween : r + 1 < s := by
    refine lt_of_le_of_ne (Nat.succ_le_of_lt hlt) fun heq => ?_
    exact Nat.not_even_iff_odd.mpr heven.add_one (heq ▸ heven')
  have hlow := magnitude_strictMono (Nat.lt_succ_self r)
  have hhigh := magnitude_strictMono hbetween
  -- `x` lies halfway between the two, and so the third is nearer
  have hmiddle : x - magnitude r = magnitude s - x := by
    rcases abs_eq_abs.mp hdist with h | h <;> linarith
  have hnearer : |magnitude (r + 1) - x| < |magnitude r - x| := by
    rw [abs_sub_comm (magnitude r), abs_of_nonneg (show 0 ≤ x - magnitude r by linarith)]
    exact abs_sub_lt_iff.mpr ⟨by linarith, by linarith⟩
  exact absurd (hr.abs_le (r + 1)) hnearer.not_ge

/-- just one rank is nearest -/
theorem Nearest.unique (hr : Nearest r x) (hs : Nearest s x) : r = s :=
  Nat.le_antisymm (Nat.not_lt.mp (hs.not_lt hr)) (Nat.not_lt.mp (hr.not_lt hs))

/-- what lies between a rank and what it is nearest to, it is nearest to as well -/
theorem Nearest.of_between {y : ℚ} (h : Nearest r x)
    (hy : magnitude r ≤ y ∧ y ≤ x ∨ x ≤ y ∧ y ≤ magnitude r) : Nearest r y := by
  have hsplit : |magnitude r - x| = |magnitude r - y| + |y - x| := by
    rcases hy with ⟨hry, hyx⟩ | ⟨hxy, hyr⟩
    · rw [abs_of_nonpos (by linarith), abs_of_nonpos (by linarith), abs_of_nonpos (by linarith)]
      ring
    · rw [abs_of_nonneg (by linarith), abs_of_nonneg (by linarith), abs_of_nonneg (by linarith)]
      ring
  intro other hne
  have htriangle := abs_sub_le (magnitude other) y x
  have hnearer : |magnitude r - y| < |magnitude other - x| - |y - x| ∨
      |magnitude r - y| = |magnitude other - x| - |y - x| ∧ Even r := by
    rcases h other hne with hless | ⟨htie, heven⟩
    · exact Or.inl (by linarith)
    · exact Or.inr ⟨by linarith, heven⟩
  exact nearer_trans hnearer (by linarith)

/-- magnitudes are never closer to each other than the least positive one to zero -/
theorem nearest_of_close (h : |magnitude r - x| < leastMagnitude / 2) : Nearest r x := by
  intro other hne
  have hunits : (1 : ℚ) ≤ |(units other : ℚ) - units r| := by
    have hcast : (units other : Int) - units r ≠ 0 := by
      have := units_strictMono.injective.ne hne
      omega
    exact_mod_cast Int.one_le_abs hcast
  have hapart : leastMagnitude ≤ |magnitude other - magnitude r| := by
    rw [magnitude, magnitude, ← sub_mul, abs_mul, abs_of_pos leastMagnitude_pos]
    exact le_mul_of_one_le_left leastMagnitude_pos.le hunits
  have htriangle := abs_sub_le (magnitude other) x (magnitude r)
  rw [abs_sub_comm x] at htriangle
  exact Or.inl (by linarith)

theorem nearest_magnitude (r : Nat) : Nearest r (magnitude r) := by
  apply nearest_of_close
  rw [sub_self, abs_zero]
  exact half_pos leastMagnitude_pos

theorem Nearest.le_of_magnitude_le (h : Nearest r x) (hs : magnitude s ≤ x) : s ≤ r := by
  by_contra hlt
  have hmono := magnitude_strictMono (Nat.not_le.mp hlt)
  have hnearer : |magnitude s - x| < |magnitude r - x| := by
    rw [abs_sub_comm, abs_of_nonneg (sub_nonneg.mpr hs), abs_sub_comm (magnitude r),
      abs_of_nonneg (by linarith)]
    linarith
  exact absurd (h.abs_le s) hnearer.not_ge

end

/-! ## rounding -/

theorem roundDiv_eq (num den : Nat) :
    roundDiv num den =
      if 2 * (num % den) < den ∨ 2 * (num % den) = den ∧ num / den % 2 = 0 then num / den
      else num / den + 1 := rfl

theorem blockSize_eq : blockSize = 2 ^ 52 := by decide +kernel

/-- the quotient of the chosen block lies in this block -/
theorem div_block {q block : Nat} (h : block = q.log2 - 52) :
    (block = 0 ∨ blockSize ≤ q / 2 ^ block) ∧ q / 2 ^ block < 2 * blockSize := by
  have hhigh : q < 2 ^ (q.log2 + 1) := Nat.lt_log2_self
  have htop : q < 2 ^ block * (2 * blockSize) := by
    rw [blockSize_eq, ← Nat.pow_succ', ← Nat.pow_add]
    exact lt_of_lt_of_le hhigh (Nat.pow_le_pow_right (by decide) (by omega))
  refine ⟨?_, Nat.div_lt_of_lt_mul htop⟩
  by_cases hzero : block = 0
  · exact Or.inl hzero
  · have hq : q ≠ 0 := by
      rintro rfl
      rw [Nat.log2_zero] at h
      omega
    have hlow : blockSize * 2 ^ block ≤ q := by
      rw [blockSize_eq, ← Nat.pow_add, show 52 + block = q.log2 by omega]
      exact Nat.log2_self_le hq
    exact Or.inr ((Nat.le_div_iff_mul_le (Nat.two_pow_pos block)).mpr hlow)

/-- how far a quotient is from the ranks on its two sides -/
theorem distances {block low excess lacking num den : Nat} (hin : block = 0 ∨ blockSize ≤ low)
    (hlt : low < 2 * blockSize) (h : 0 < den) (hstep : den * 2 ^ block = excess + lacking)
    (hnum : den * 2 ^ block * low + excess = num) :
    num / den * leastMagnitude - magnitude (block * blockSize + low) =
        excess * (leastMagnitude / den) ∧
      magnitude (block * blockSize + low + 1) - num / den * leastMagnitude =
        lacking * (leastMagnitude / den) := by
  have hden : (den : ℚ) ≠ 0 := by exact_mod_cast h.ne'
  have hstep' : (lacking : ℚ) = den * 2 ^ block - excess := by
    rw [eq_sub_iff_add_eq']
    exact_mod_cast hstep.symm
  have hnum' : (num : ℚ) = den * 2 ^ block * low + excess := by exact_mod_cast hnum.symm
  have hin' : block = 0 ∨ blockSize ≤ low + 1 := hin.imp_right Nat.le_succ_of_le
  rw [magnitude, magnitude, units_block hin hlt.le, Nat.add_assoc, units_block hin' hlt, hnum',
    hstep']
  push_cast
  constructor <;> field_simp <;> ring

/-- the rank that a quotient of units is rounded to is the nearest -/
theorem nearest_nearestRank (num : Nat) {den : Nat} (h : 0 < den) :
    Nearest (nearestRank num den) (num / den * leastMagnitude) := by
  generalize hblock : (num / den).log2 - 52 = block
  obtain ⟨hin, hlt⟩ := div_block hblock.symm
  rw [Nat.div_div_eq_div_mul] at hin hlt
  have hrank : nearestRank num den = block * blockSize + roundDiv num (den * 2 ^ block) := by
    simp only [nearestRank, hblock, Nat.shiftLeft_eq]
  rw [hrank, roundDiv_eq]
  have hsplit := Nat.div_add_mod num (den * 2 ^ block)
  have hmod := Nat.mod_lt num (Nat.mul_pos h (Nat.two_pow_pos block))
  generalize num / (den * 2 ^ block) = low at hin hlt hsplit ⊢
  generalize num % (den * 2 ^ block) = excess at hsplit hmod ⊢
  obtain ⟨lacking, hstep⟩ := Nat.exists_eq_add_of_le hmod.le
  obtain ⟨hbelow, habove⟩ := distances hin hlt h hstep hsplit
  have hscale : 0 < leastMagnitude / den := div_pos leastMagnitude_pos (by exact_mod_cast h)
  have heven : Even (block * blockSize) := (by decide : Even blockSize).mul_left block
  split
  · rename_i hdown
    refine nearest_of_below (sub_nonneg.mp (hbelow ▸ by positivity)) ?_
    rw [hbelow, habove]
    rcases hdown with hless | ⟨htie, hparity⟩
    · have hnearer : (excess : ℚ) < lacking := by exact_mod_cast (by omega : excess < lacking)
      exact Or.inl (mul_lt_mul_of_pos_right hnearer hscale)
    · have hsame : excess = lacking := by omega
      exact Or.inr ⟨by rw [hsame], heven.add (Nat.even_iff.mpr hparity)⟩
  · rename_i hup
    rw [not_or, not_and] at hup
    obtain ⟨hge, hodd⟩ := hup
    rw [← Nat.add_assoc]
    refine nearest_of_above (sub_nonneg.mp (habove ▸ by positivity)) ?_
    rw [habove, hbelow]
    rcases lt_or_eq_of_le (Nat.not_lt.mp hge) with hmore | htie
    · have hnearer : (lacking : ℚ) < excess := by exact_mod_cast (by omega : lacking < excess)
      exact Or.inl (mul_lt_mul_of_pos_right hnearer hscale)
    · have hsame : lacking = excess := by omega
      have hlow : Odd low := Nat.odd_iff.mpr (Nat.mod_two_ne_zero.mp (hodd htie.symm))
      exact Or.inr ⟨by rw [hsame], (heven.add_odd hlow).add_one⟩

theorem nearest_iff {r num den : Nat} (h : 0 < den) :
    Nearest r (num / den * leastMagnitude) ↔ nearestRank num den = r := by
  constructor
  · exact fun hr => (nearest_nearestRank num h).unique hr
  · rintro rfl
    exact nearest_nearestRank num h

/-! ## decimals -/

theorem tenPow_eq (n : Nat) : tenPow n = 10 ^ n := rfl

theorem shiftLeft_mul_leastMagnitude (n : Nat) : ((n <<< 1074 : Nat) : ℚ) * leastMagnitude = n := by
  have hshift : ∀ k : Nat, ((n <<< k : Nat) : ℚ) * (1 / 2 ^ k) = n := by
    intro k
    rw [Nat.shiftLeft_eq]
    push_cast
    field_simp
  exact hshift 1074

theorem magnitude_rankCount : magnitude rankCount = ((2 ^ 1024 : Nat) : ℚ) := by
  have hunits : units rankCount = (2 ^ 1024) <<< 1074 := by decide +kernel
  rw [magnitude, hunits, shiftLeft_mul_leastMagnitude]

theorem half_leastMagnitude : leastMagnitude / 2 = 2 ^ (-1075 : Int) := by
  have hhalf : ∀ k : Nat, (1 : ℚ) / 2 ^ k / 2 = 2 ^ (-(k + 1) : Int) := by
    intro k
    rw [zpow_neg, ← Nat.cast_succ, zpow_natCast, pow_succ]
    field_simp
  exact hhalf 1074

/-- a power of ten as a quotient of two, one of which is one -/
theorem zpow_eq_div (e : Int) : (10 : ℚ) ^ e = 10 ^ e.toNat / 10 ^ (-e).toNat := by
  rcases Int.le_total 0 e with h | h
  · rw [Int.toNat_eq_zero.mpr (Int.neg_nonpos_of_nonneg h), pow_zero, div_one, ← zpow_natCast,
      Int.toNat_of_nonneg h]
  · rw [Int.toNat_eq_zero.mpr h, pow_zero, one_div, ← zpow_natCast,
      Int.toNat_of_nonneg (Int.neg_nonneg_of_nonpos h), ← zpow_neg, neg_neg]

namespace Number

theorem nearest_decimalRank (digits : Nat) (exponent : Int) :
    Nearest (decimalRank digits exponent) (digits * 10 ^ exponent) := by
  have hden : 0 < tenPow (-exponent).toNat := Nat.pow_pos (by decide)
  have h := nearest_nearestRank ((digits * tenPow exponent.toNat) <<< 1074) hden
  rw [div_mul_eq_mul_div, shiftLeft_mul_leastMagnitude, tenPow_eq, tenPow_eq] at h
  rw [zpow_eq_div, ← mul_div_assoc]
  push_cast at h
  exact h

/-- from the power of ten that is beyond the last rank everything is -/
theorem rankCount_le_of_nearest {digits r : Nat} {exponent : Int} (hd : digits ≠ 0)
    (he : 309 ≤ exponent) (h : Nearest r (digits * 10 ^ exponent)) : rankCount ≤ r := by
  have hpower : ((2 ^ 1024 : Nat) : ℚ) ≤ ((10 ^ 309 : Nat) : ℚ) :=
    Nat.cast_le.mpr (by decide +kernel)
  have hexponent : (10 : ℚ) ^ (309 : Int) ≤ 10 ^ exponent := zpow_le_zpow_right₀ (by norm_num) he
  have hdigits : (1 : ℚ) ≤ digits := by exact_mod_cast Nat.one_le_iff_ne_zero.mpr hd
  apply h.le_of_magnitude_le
  calc magnitude rankCount = ((2 ^ 1024 : Nat) : ℚ) := magnitude_rankCount
    _ ≤ ((10 ^ 309 : Nat) : ℚ) := hpower
    _ = 10 ^ (309 : Int) := by rw [Nat.cast_pow]; rfl
    _ ≤ 10 ^ exponent := hexponent
    _ ≤ digits * 10 ^ exponent := le_mul_of_one_le_left (by positivity) hdigits

/-- a decimal of less than half a unit -/
theorem nearest_zero_of_small {digits : Nat} {exponent : Int}
    (h : (digits.log2 + 1 : Int) + 3 * exponent ≤ -1075) :
    Nearest 0 (digits * 10 ^ exponent) := by
  have hdigits : (digits : ℚ) < 2 ^ (digits.log2 + 1 : Int) := by
    exact_mod_cast (Nat.lt_log2_self : digits < 2 ^ (digits.log2 + 1))
  have hexponent : (10 : ℚ) ^ exponent ≤ 2 ^ (3 * exponent) := by
    obtain ⟨k, rfl⟩ := Int.exists_eq_neg_ofNat (show exponent ≤ 0 by omega)
    rw [zpow_mul, zpow_neg, zpow_neg, zpow_natCast, zpow_natCast]
    exact inv_anti₀ (by positivity) (pow_le_pow_left₀ (by positivity) (by norm_num) k)
  apply nearest_of_close
  rw [magnitude_zero, zero_sub, abs_neg, abs_of_nonneg (by positivity), half_leastMagnitude]
  calc (digits : ℚ) * 10 ^ exponent
      < 2 ^ (digits.log2 + 1 : Int) * 10 ^ exponent :=
        mul_lt_mul_of_pos_right hdigits (by positivity)
    _ ≤ 2 ^ (digits.log2 + 1 : Int) * 2 ^ (3 * exponent) :=
        mul_le_mul_of_nonneg_left hexponent (by positivity)
    _ = 2 ^ ((digits.log2 + 1 : Int) + 3 * exponent) := (zpow_add₀ (by norm_num) _ _).symm
    _ ≤ 2 ^ (-1075 : Int) := zpow_le_zpow_right₀ (by norm_num) h

/-- the shortcuts answer what rounding would -/
theorem ofDecimal_eq_ofRank (negative : Bool) (digits : Nat) (exponent : Int) :
    ofDecimal negative digits exponent = ofRank negative (decimalRank digits exponent) := by
  have hnearest := nearest_decimalRank digits exponent
  unfold ofDecimal
  split
  · rename_i hzero
    have hvalue : (digits : ℚ) * 10 ^ exponent = magnitude 0 := by
      rw [hzero, Nat.cast_zero, zero_mul, magnitude_zero]
    rw [hvalue] at hnearest
    rw [hnearest.unique (nearest_magnitude 0)]
  split
  · rename_i hd he
    exact (ofRank_of_le negative (rankCount_le_of_nearest hd he hnearest)).symm
  split
  · rename_i hsmall
    rw [(nearest_zero_of_small hsmall).unique hnearest]
  · rfl

/-- the number nearest to a magnitude, with a sign; an infinite one beyond the last rank -/
def IsNearest (negative : Bool) (x : ℚ) (n : Number) : Prop :=
  ∃ rank, Nearest rank x ∧ n = ofRank negative rank

theorem isNearest_ofDecimal (negative : Bool) (digits : Nat) (exponent : Int) :
    IsNearest negative (digits * 10 ^ exponent) (ofDecimal negative digits exponent) :=
  ⟨decimalRank digits exponent, nearest_decimalRank digits exponent,
    ofDecimal_eq_ofRank negative digits exponent⟩

theorem IsNearest.unique {negative : Bool} {x : ℚ} {m n : Number} (hm : IsNearest negative x m)
    (hn : IsNearest negative x n) : m = n := by
  obtain ⟨r, hr, rfl⟩ := hm
  obtain ⟨s, hs, rfl⟩ := hn
  rw [hr.unique hs]

end Number

end LineScript
