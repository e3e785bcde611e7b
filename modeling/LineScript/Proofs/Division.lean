import LineScript.Command.Builtin
import LineScript.Proofs.Spelling

/-!
# Division

A division fails on a divisor that counts as zero and on no other.  A text counts as zero if it spells a
decimal to which zero is nearest; this need not be zero itself, and half of the least positive magnitude
is still near enough, since a tie goes to the even rank.

* `nearest_zero_iff`          what zero is nearest to;
* `Value.Vanishes`            the values that count as zero, read off the values themselves;
* `Value.isZero_asNumber_iff` these are the ones that arithmetic sees as a zero.

`Command.division_fails_iff` says what a division gives.
-/

namespace LineScript

/-! ## what zero is nearest to -/

theorem magnitude_one : magnitude 1 = leastMagnitude := by
  rw [magnitude, units_of_lt (by decide), Nat.cast_one, one_mul]

/-- the tie belongs to zero, which has an even rank -/
theorem nearest_zero_iff {x : ℚ} (h : 0 ≤ x) : Nearest 0 x ↔ x ≤ 2 ^ (-1075 : Int) := by
  have hleast := leastMagnitude_pos
  rw [← half_leastMagnitude]
  constructor
  · intro hnearest
    have hone := hnearest.abs_le 1
    rw [magnitude_zero, magnitude_one, zero_sub, abs_neg, abs_of_nonneg h] at hone
    rcases le_abs.mp hone with hle | hle <;> linarith
  · intro hle
    apply nearest_of_below
    · rwa [magnitude_zero]
    · rw [magnitude_zero, Nat.zero_add, magnitude_one, sub_zero]
      rcases lt_or_eq_of_le hle with hlt | htie
      · exact Or.inl (by linarith)
      · exact Or.inr ⟨by linarith, Even.zero⟩

theorem Spelling.magnitude_nonneg (s : Spelling) : 0 ≤ s.magnitude := by
  unfold magnitude
  positivity

namespace Number

/-- there are two zeros -/
theorem isZero_iff {n : Number} : n.isZero ↔ n = .zero ∨ n = .ofRank true 0 := by
  constructor
  · intro h
    cases n with
    | nan => cases h
    | infinite negative => cases h
    | finite negative rank =>
      rw [← ofRank_val, eq_of_beq h]
      cases negative with
      | false => exact Or.inl rfl
      | true => exact Or.inr rfl
  · rintro (rfl | rfl) <;> rfl

theorem isZero_ofRank_zero (negative : Bool) : (ofRank negative 0).isZero := by
  cases negative <;> rfl

theorem rank_eq_zero_of_isZero {negative : Bool} {rank : Nat} (h : (ofRank negative rank).isZero) :
    rank = 0 := by
  unfold ofRank at h
  split at h
  · exact eq_of_beq h
  · cases h

/-- a text is read as a zero if it spells a decimal of half a unit or less, whatever its sign -/
theorem isZero_read?_iff {t : String} :
    ((read? t).getD .nan).isZero ↔
      ∃ s : Spelling, s.text = t ∧ s.magnitude ≤ 2 ^ (-1075 : Int) := by
  constructor
  · intro h
    cases hread : read? t with
    | none =>
      rw [hread] at h
      cases h
    | some n =>
      rw [hread, Option.getD_some] at h
      obtain ⟨-, s, htext, rank, hnearest, rfl⟩ := read?_eq_some_iff.mp hread
      rw [rank_eq_zero_of_isZero h] at hnearest
      exact ⟨s, htext, (nearest_zero_iff s.magnitude_nonneg).mp hnearest⟩
  · rintro ⟨s, htext, hsmall⟩
    have hnearest : Nearest 0 s.magnitude := (nearest_zero_iff s.magnitude_nonneg).mpr hsmall
    have hspelled : (ofRank s.negative 0).Spelled t :=
      ⟨by cases s.negative <;> rfl, s, htext, 0, hnearest, rfl⟩
    rw [read?_eq_some_iff.mpr hspelled, Option.getD_some]
    exact isZero_ofRank_zero s.negative

end Number

/-! ## values that count as zero -/

namespace Value

/-- falsehood, the two zeros, and a text that spells, between white space, a decimal of half the least
positive magnitude or less -/
def Vanishes : Value → Prop
  | .bool b => b = false
  | .number n => n = .zero ∨ n = .ofRank true 0
  | .text t => ∃ s : Spelling, s.text = Text.trim t ∧ s.magnitude ≤ 2 ^ (-1075 : Int)

theorem isZero_asNumber_iff (v : Value) : v.asNumber.isZero ↔ v.Vanishes := by
  cases v with
  | text t => rw [asNumber, Vanishes, Number.isZero_read?_iff]
  | number n => exact Number.isZero_iff
  | bool b =>
    cases b with
    | false => exact iff_of_true rfl rfl
    | true => exact iff_of_false (by decide) Bool.noConfusion

end Value

theorem quotient_of_vanishes {x y : Value} (h : y.Vanishes) :
    quotient x y = .failed .divisionByZero := by
  rw [quotient, if_pos (y.isZero_asNumber_iff.mpr h)]

theorem quotient_of_not_vanishes {x y : Value} (h : ¬y.Vanishes) :
    quotient x y = .done (.value (.number (x.asNumber.div y.asNumber))) := by
  rw [quotient, if_neg fun hzero => h (y.isZero_asNumber_iff.mp hzero)]

namespace Command

/-- **A division fails exactly on a divisor that counts as zero.**  These are `false`, the two zeros and
the texts that spell a decimal of at most `2 ^ -1075`: then there is no value, and the entry of the
failure stops.  On every other divisor, and be it no number, infinite or no literal, there is a value,
nothing is logged and nothing stops. -/
theorem division_fails_iff (x y : Value) :
    let outcome := CommandName.div.builtin.invoke [x, y]
    (outcome = ⟨none, some ⟨.error, "Division by zero."⟩, true⟩ ↔ y.Vanishes) ∧
    (outcome = ⟨some (.number (x.asNumber.div y.asNumber)), none, false⟩ ↔ ¬y.Vanishes) := by
  intro outcome
  have hrun : outcome = (quotient x y).outcome := rfl
  by_cases h : y.Vanishes
  · rw [hrun, quotient_of_vanishes h]
    have hno : Outcome.failure .divisionByZero ≠
        ⟨some (.number (x.asNumber.div y.asNumber)), none, false⟩ := by
      simp [Outcome.failure, Outcome.halt]
    exact ⟨iff_of_true rfl h, iff_of_false hno (not_not.mpr h)⟩
  · rw [hrun, quotient_of_not_vanishes h]
    exact ⟨iff_of_false (by simp [Reply.outcome, Outcome.value]) h, iff_of_true rfl h⟩

/-- the least positive magnitude is nearly `4.94e-324`: below half of it a text counts as zero, and
above as a number, as do words for truth values and for what is no number -/
example : [.text " -2.4703282292062327e-324\n", .text "2.4703282292062328e-324", .text "-0",
      .text "0e5", .text "", .text "false", .text "NaN", .number .nan, .bool true].map
      (fun y => (CommandName.div.builtin.invoke [.number .one, y]).stops) =
    [true, false, true, true, false, false, false, false, false] := by
  decide +kernel

end Command

end LineScript
