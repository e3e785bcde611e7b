import Mathlib.Algebra.Order.Ring.Nat
import Mathlib.Data.List.Induction

/-!
# Decimal digits

What digits are worth, read from the front but reasoned about from the end, where a digit more makes
ten times as much and itself.

* `ofDigitChars_append`          digits behind others move these up;
* `eq_zeros_append_of_lt_ten`    digits that are worth no more than one of them are zeros but for it.
-/

namespace LineScript

theorem digit_bounds {c : Char} (h : c.isDigit) : 48 ≤ c.toNat ∧ c.toNat ≤ 57 := by
  simpa [Char.isDigit, UInt32.le_iff_toNat_le] using h

/-- digits behind others move these up by as many places -/
theorem ofDigitChars_append (a b : List Char) :
    Nat.ofDigitChars 10 (a ++ b) 0 =
      Nat.ofDigitChars 10 a 0 * 10 ^ b.length + Nat.ofDigitChars 10 b 0 := by
  rw [Nat.ofDigitChars_append, Nat.ofDigitChars_eq_ofDigitChars_zero, Nat.mul_comm]

theorem ofDigitChars_concat (ds : List Char) (d : Char) :
    Nat.ofDigitChars 10 (ds ++ [d]) 0 = Nat.ofDigitChars 10 ds 0 * 10 + (d.toNat - 48) := by
  rw [ofDigitChars_append, Nat.ofDigitChars_cons, Nat.ofDigitChars_nil, Nat.mul_zero, Nat.zero_add]
  rfl

/-- only zeros are worth nothing -/
theorem ofDigitChars_eq_zero_iff {ds : List Char} (h : ∀ d ∈ ds, d.isDigit) :
    Nat.ofDigitChars 10 ds 0 = 0 ↔ ds = List.replicate ds.length '0' := by
  constructor
  · intro hzero
    rw [List.eq_replicate_iff]
    refine ⟨rfl, ?_⟩
    induction ds using List.reverseRecOn with
    | nil => simp
    | append_singleton ds d ih =>
      obtain ⟨hds, hd⟩ := List.forall_mem_append.mp h
      have hbounds := digit_bounds (hd d (List.mem_singleton_self d))
      rw [ofDigitChars_concat] at hzero
      have hlast : d = '0' := Char.toNat_inj.mp (show d.toNat = 48 by omega)
      refine List.forall_mem_append.mpr ⟨ih hds (by omega), ?_⟩
      simpa using hlast
  · intro hds
    rw [hds, Nat.ofDigitChars_replicate_zero, Nat.mul_zero]

/-- digits that are worth less than ten are one digit with zeros in front -/
theorem eq_zeros_append_of_lt_ten {ds : List Char} (hne : ds ≠ []) (h : ∀ d ∈ ds, d.isDigit)
    (hv : Nat.ofDigitChars 10 ds 0 < 10) :
    ∃ zeros, ds = List.replicate zeros '0' ++ [Nat.digitChar (Nat.ofDigitChars 10 ds 0)] := by
  cases ds using List.reverseRecOn with
  | nil => exact absurd rfl hne
  | append_singleton front d =>
    obtain ⟨hfront, hd⟩ := List.forall_mem_append.mp h
    have hbounds := digit_bounds (hd d (List.mem_singleton_self d))
    rw [ofDigitChars_concat] at hv ⊢
    have hzero : Nat.ofDigitChars 10 front 0 = 0 := by omega
    have hdigit : Nat.digitChar (d.toNat - 48) = d := by
      apply Char.toNat_inj.mp
      rw [Nat.toNat_digitChar_of_lt_ten (by omega)]
      omega
    rw [hzero, Nat.zero_mul, Nat.zero_add, hdigit]
    exact ⟨front.length, by rw [← (ofDigitChars_eq_zero_iff hfront).mp hzero]⟩

end LineScript
