import LineScript.Proofs.Shortest
import LineScript.Proofs.Spacing
import LineScript.Proofs.Spelling

/-!
# Numbers as they are written

The text of a finite number is a spelling of the count that is written for its rank, so it is read as
the number itself, but for the sign of a zero.

* `Plain`                  digits, with perhaps a minus in front and perhaps a point among them;
* `numeral`                a count of `10 ^ -324`, spelled in full;
* `Number.read?_text`      the text of a finite number is read as this number;
* `Number.text_of_magnitude`   an integer below `2 ^ 53` is written as an integer.

`Value.reads_back` puts these together.
-/

namespace LineScript

/-! ## digits behind the point -/

theorem cast_tenPow (n : Nat) : (tenPow n : ℚ) = 10 ^ n := by
  rw [tenPow_eq, Nat.cast_pow, Nat.cast_ofNat]

theorem dropZeroEnd_append (ds : List Char) :
    ∃ zeros, ds = dropZeroEnd ds ++ List.replicate zeros '0' := by
  refine ⟨(ds.reverse.takeWhile (· == '0')).length, ?_⟩
  have hzeros : ds.reverse.takeWhile (· == '0') =
      List.replicate (ds.reverse.takeWhile (· == '0')).length '0' := by
    refine List.eq_replicate_iff.mpr ⟨rfl, fun c hc => ?_⟩
    exact beq_iff_eq.mp (List.all_eq_true.mp List.all_takeWhile c hc)
  apply List.reverse_injective
  rw [dropZeroEnd, List.reverse_append, List.reverse_reverse, List.reverse_replicate, ← hzeros,
    List.takeWhile_append_dropWhile]

section
variable {n : Nat}

theorem length_toDigits_le {k : Nat} (hk : 0 < k) (h : n < tenPow k) :
    (Nat.toDigits 10 n).length ≤ k :=
  (Nat.length_toDigits_le_iff (by decide) hk).mpr h

/-- with as many zeros as were left out these are 324 digits of the count -/
theorem exists_zeros (h : n < tenPow 324) :
    ∃ zeros, (fractionDigits n).length + zeros = 324 ∧
      Nat.ofDigitChars 10 (fractionDigits n) 0 * 10 ^ zeros = n := by
  have hlength := length_toDigits_le (by decide) h
  obtain ⟨zeros, hzeros⟩ := dropZeroEnd_append
    (List.replicate (324 - (Nat.toDigits 10 n).length) '0' ++ Nat.toDigits 10 n)
  refine ⟨zeros, ?_, ?_⟩
  · have hcount := congrArg List.length hzeros
    simp only [List.length_append, List.length_replicate] at hcount
    rw [fractionDigits]
    omega
  · have hvalue := congrArg (Nat.ofDigitChars 10 · 0) hzeros
    simp only [ofDigitChars_append, Nat.ofDigitChars_replicate_zero, Nat.mul_zero, Nat.zero_mul,
      Nat.zero_add, Nat.add_zero, Nat.ofDigitChars_ten_toDigits, List.length_replicate] at hvalue
    exact hvalue.symm

theorem fractionDigits_value (h : n < tenPow 324) :
    (Nat.ofDigitChars 10 (fractionDigits n) 0 : ℚ) / 10 ^ (fractionDigits n).length =
      counted n := by
  obtain ⟨zeros, hlength, hvalue⟩ := exists_zeros h
  have hten : (tenPow 324 : ℚ) = 10 ^ (fractionDigits n).length * 10 ^ zeros := by
    rw [cast_tenPow, ← pow_add, hlength]
  have hn : (n : ℚ) = Nat.ofDigitChars 10 (fractionDigits n) 0 * 10 ^ zeros := by
    exact_mod_cast hvalue.symm
  rw [counted, hten, hn]
  field_simp

theorem fractionDigits_ne_nil (h : n < tenPow 324) (hn : n ≠ 0) : fractionDigits n ≠ [] := by
  intro hnil
  obtain ⟨zeros, -, hvalue⟩ := exists_zeros h
  rw [hnil, Nat.ofDigitChars_nil, Nat.zero_mul] at hvalue
  exact hn hvalue.symm

end

/-! ## whole texts -/

/-- a count of `10 ^ -324`, spelled in full -/
def numeral (minus : Bool) (n : Nat) : Spelling where
  sign := if minus then .minus else .absent
  whole := Nat.toDigits 10 (n / tenPow 324)
  fraction? := if n % tenPow 324 = 0 then none else some (fractionDigits (n % tenPow 324))
  exponent? := none
  isDigit_whole := fun _ h => isDigit_of_mem_toDigits h
  isDigit_fraction := by
    intro d hd
    split at hd
    · cases hd
    · exact isDigit_of_mem_fractionDigits hd
  digits_ne_nil := fun h => Nat.toDigits_ne_nil (List.append_eq_nil_iff.mp h).1

section
variable (minus : Bool) (n : Nat)

theorem chars_numeral :
    (numeral minus n).chars = (if minus then ['-'] else []) ++ positional n := by
  have hsign : (if minus then Sign.minus else Sign.absent).chars = if minus then ['-'] else [] := by
    cases minus <;> rfl
  have hpointed : pointed (if n % tenPow 324 = 0 then none
      else some (fractionDigits (n % tenPow 324))) =
        if n % tenPow 324 = 0 then [] else '.' :: fractionDigits (n % tenPow 324) := by
    split <;> rfl
  simp only [Spelling.chars, numeral, hsign, hpointed, powered, List.append_nil, positional]

theorem negative_numeral : (numeral minus n).negative = minus := by
  cases minus <;> rfl

theorem counted_eq_add :
    counted n = (n / tenPow 324 : Nat) + counted (n % tenPow 324) := by
  have hsplit : (n : ℚ) = tenPow 324 * (n / tenPow 324 : Nat) + (n % tenPow 324 : Nat) := by
    exact_mod_cast (Nat.div_add_mod n (tenPow 324)).symm
  rw [counted, counted, hsplit, add_div, mul_div_cancel_left₀ _ (cast_tenPow_pos 324).ne']

theorem magnitude_numeral : (numeral minus n).magnitude = counted n := by
  have hwhole : Nat.ofDigitChars 10 (numeral minus n).whole 0 = n / tenPow 324 :=
    Nat.ofDigitChars_ten_toDigits
  have hfraction : (Nat.ofDigitChars 10 (numeral minus n).fraction 0 : ℚ) /
      10 ^ (numeral minus n).fraction.length = counted (n % tenPow 324) := by
    by_cases hzero : n % tenPow 324 = 0
    · simp [Spelling.fraction, numeral, hzero, counted]
    · simp only [Spelling.fraction, numeral, if_neg hzero, Option.getD_some]
      exact fractionDigits_value (Nat.mod_lt n (tenPow_pos 324))
  have hexponent : (numeral minus n).exponent = 0 := rfl
  rw [Spelling.magnitude, hwhole, hfraction, hexponent, zpow_zero, mul_one, ← counted_eq_add]

end

/-- digits, perhaps with a minus in front and perhaps with a point and more digits behind it -/
def Plain (cs : List Char) : Prop :=
  ∃ sign whole fraction : List Char, cs = sign ++ (whole ++ fraction) ∧
    (sign = [] ∨ sign = ['-']) ∧ (whole ≠ [] ∧ ∀ d ∈ whole, d.isDigit) ∧
    (fraction = [] ∨ ∃ ds, fraction = '.' :: ds ∧ ds ≠ [] ∧ ∀ d ∈ ds, d.isDigit)

theorem plain_positional (n : Nat) {sign : List Char} (h : sign = [] ∨ sign = ['-']) :
    Plain (sign ++ positional n) := by
  refine ⟨sign, _, _, rfl, h, ⟨Nat.toDigits_ne_nil, fun d hd => isDigit_of_mem_toDigits hd⟩, ?_⟩
  split
  · exact Or.inl rfl
  · rename_i hzero
    have hlt := Nat.mod_lt n (tenPow_pos 324)
    exact Or.inr ⟨_, rfl, fractionDigits_ne_nil hlt hzero,
      fun d hd => isDigit_of_mem_fractionDigits hd⟩

/-! ## numbers -/

namespace Number

theorem exists_finite {n : Number} (h : n.isFinite) : ∃ negative rank, n = finite negative rank := by
  cases n with
  | nan => cases h
  | infinite negative => cases h
  | finite negative rank => exact ⟨negative, rank, rfl⟩

/-- a number with its sign, or a zero without -/
def unsignedZero : Number → Number
  | .finite negative rank => .finite (negative && rank.val != 0) rank
  | n => n

theorem equals_unsignedZero {n : Number} (h : n.isFinite) : n.unsignedZero.equals n := by
  obtain ⟨negative, rank, rfl⟩ := exists_finite h
  by_cases hzero : rank.val = 0 <;> simp [unsignedZero, equals, hzero]

theorem unsignedZero_of_ne {n : Number} (h : n ≠ .ofRank true 0) : n.unsignedZero = n := by
  cases n with
  | nan => rfl
  | infinite negative => rfl
  | finite negative rank =>
    by_cases hzero : rank.val = 0
    · cases negative with
      | false => rfl
      | true => exact absurd (by rw [← ofRank_val, hzero]) h
    · simp [unsignedZero, hzero]

section
variable (negative : Bool) (rank : Fin rankCount)

theorem text_finite :
    (finite negative rank).text = (numeral (negative && rank.val != 0) (shortest rank)).text := by
  rw [Spelling.text, chars_numeral]
  rfl

theorem plain_text : Plain (finite negative rank).text.toList := by
  rw [text, String.toList_ofList, finiteText]
  apply plain_positional
  split
  · exact Or.inr rfl
  · exact Or.inl rfl

/-- a number is read as itself, but a zero as the one without a sign -/
theorem read?_text :
    read? (finite negative rank).text = some (finite negative rank).unsignedZero := by
  rw [read?_eq_some_iff, text_finite]
  refine ⟨rfl, _, rfl, rank, ?_, ?_⟩
  · rw [magnitude_numeral]
    exact nearest_shortest rank
  · rw [negative_numeral, ofRank_val]
    rfl

/-- no text is a zero with a sign, which would be read as itself -/
theorem text_ne : (finite negative rank).text ≠ "-0" := by
  intro h
  have hread := read?_text negative rank
  rw [h, show read? "-0" = some (ofRank true 0) by decide +kernel] at hread
  obtain ⟨hsign, hrank⟩ := Number.finite.inj (Option.some.inj hread)
  simp [← hrank] at hsign

/-- a rank below `2 ^ 53` that is an integer is written as this integer -/
theorem text_of_magnitude {k : Nat} (h : magnitude rank = k) (hk : k + 1 < 2 * blockSize) :
    (finite negative rank).text =
      (if negative && k != 0 then "-" else "") ++ toString k := by
  have hten := tenPow_pos 324
  have hzero : (rank.val != 0) = (k != 0) := by
    rw [Bool.eq_iff_iff, bne_iff_ne, bne_iff_ne, ne_eq, ne_eq, not_iff_not,
      ← magnitude_strictMono.injective.eq_iff, h, magnitude_zero, Nat.cast_eq_zero]
  have hpositional : positional (shortest rank) = Nat.toDigits 10 k := by
    rw [shortest_of_magnitude h hk, positional, Nat.mul_div_cancel _ hten, Nat.mul_mod_left, if_pos rfl,
      List.append_nil]
  rw [text, finiteText, hpositional, hzero, Nat.toString_eq_ofList_toDigits, String.ofList_append]
  split <;> rfl

end

end Number

/-! ## values -/

theorem Text.trim_of_solid {s : String} (h : Solid s) : trim s = s := by
  have hhead : ∀ c ∈ s.toList.head?, isBlank c = false :=
    fun c hc => h c (List.mem_of_mem_head? hc)
  have hlast : ∀ c ∈ s.toList.getLast?, isBlank c = false :=
    fun c hc => h c (List.mem_of_mem_getLast? hc)
  rw [trim, trimChars_eq_self hhead hlast, String.ofList_toList]

namespace Value

theorem asNumber_of_solid {s : String} (h : Text.Solid s) :
    (text s).asNumber = (Number.read? s).getD .nan := by
  rw [asNumber, Text.trim_of_solid h]

theorem ofLiteral_of_read? {s : String} {n : Number} (h : Number.read? s = some n) :
    ofLiteral s = .number n :=
  ofLiteral_eq_number_iff.mpr (Number.read?_eq_some_iff.mp h)

/-- **Writing a number and reading it back loses nothing.**  The text of a finite number is made of
digits, with perhaps a minus and a point, and never is that of a zero with a sign.  As a bare word it
stands for a number that equals the first, and is the same unless that is the zero with a sign; as a
text it counts as this number.  The texts of the other numbers stay texts and count as `nan`.  So the
text of what a bare word stands for stands for the same. -/
theorem reads_back :
    (∀ n : Number, n.isFinite →
      Plain (number n).display.toList ∧ (number n).display ≠ "-0" ∧
      ∃ m : Number, ofLiteral (number n).display = .number m ∧
        (text (number n).display).asNumber = m ∧ m.equals n ∧
        (n ≠ .ofRank true 0 → m.toBits = n.toBits) ∧ (n = .ofRank true 0 → m = .zero)) ∧
    (∀ n : Number, ¬n.isFinite →
      ofLiteral (number n).display = .text (number n).display ∧
      (text (number n).display).asNumber = .nan) ∧
    ∀ t, (ofLiteral (ofLiteral t).display).equals (ofLiteral t) := by
  refine ⟨fun n hn => ?_, fun n hn => ?_, fun t => ?_⟩
  · obtain ⟨negative, rank, rfl⟩ := Number.exists_finite hn
    have hread := Number.read?_text negative rank
    refine ⟨Number.plain_text negative rank, Number.text_ne negative rank, _,
      ofLiteral_of_read? hread, ?_, Number.equals_unsignedZero hn, fun hne => ?_, fun hzero => ?_⟩
    · rw [display, asNumber_of_solid (Number.solid_text _), hread, Option.getD_some]
    · rw [Number.unsignedZero_of_ne hne]
    · rw [hzero]
      rfl
  · cases n with
    | nan => exact ⟨by decide +kernel, by decide +kernel⟩
    | infinite negative => cases negative <;> exact ⟨by decide +kernel, by decide +kernel⟩
    | finite negative rank => exact absurd rfl hn
  · cases h : ofLiteral t with
    | text u =>
      obtain rfl := (ofLiteral_eq_text_iff.mp h).1
      rw [display, h]
      exact beq_self_eq_true u
    | bool b => cases b <;> decide +kernel
    | number n =>
      have hfinite := (ofLiteral_eq_number_iff.mp h).1
      obtain ⟨negative, rank, rfl⟩ := Number.exists_finite hfinite
      rw [display, ofLiteral_of_read? (Number.read?_text negative rank)]
      exact Number.equals_unsignedZero hfinite

/-- a tenth is not a number but has one nearest to it, which is written as a tenth and read back; the zero
with a sign is read as the one without -/
theorem reads_back_tenth :
    let n : Number := .ofBits 0x3FB999999999999A
    let signed : Number := .ofRank true 0
    let beyond : Number := .infinite true
    (n.isFinite ∧ n ≠ signed ∧ (number n).display = "0.1" ∧
      ofLiteral "0.1" = .number n ∧ (text "0.1").asNumber = n) ∧
    (signed.isFinite ∧ (number signed).display = "0" ∧ ofLiteral "0" = .number .zero) ∧
    ¬beyond.isFinite ∧ ofLiteral "-Infinity" = .text "-Infinity" ∧
    (text "-Infinity").asNumber = .nan := by
  intro n signed beyond
  obtain ⟨hnumbers, hothers, -⟩ := reads_back
  have hfinite : n.isFinite := by decide
  have hne : n ≠ signed := by decide
  have hdisplay : (number n).display = "0.1" := by decide +kernel
  obtain ⟨-, -, m, hword, htext, -, hbits, -⟩ := hnumbers n hfinite
  have hsame : m = n := by
    rw [← m.ofBits_toBits, hbits hne, n.ofBits_toBits]
  rw [hdisplay, hsame] at hword htext
  have hsigned : signed.isFinite := by decide
  have hdisplay' : (number signed).display = "0" := by decide +kernel
  obtain ⟨-, -, m', hword', -, -, -, hzero⟩ := hnumbers signed hsigned
  rw [hdisplay', hzero rfl] at hword'
  have hbeyond : ¬beyond.isFinite := by decide
  exact ⟨⟨hfinite, hne, hdisplay, hword, htext⟩, ⟨hsigned, hdisplay', hword'⟩, hbeyond,
    hothers beyond hbeyond⟩

end Value

end LineScript
