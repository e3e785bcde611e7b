import LineScript.Proofs.Digits
import LineScript.Proofs.Nearest
import LineScript.Value

/-!
# Decimal literals, as they are spelled

A literal as the grammar has it, with its exact value, beside the reader that takes it apart.

* `Spelling`               an optional sign, digits with an optional point among, in front of or behind
                           them, and an optional exponent;
* `Spelling.magnitude`     the exact value but for the sign;
* `Literal.read?_eq_some_iff`  the reader finds a spelling and no text has two that differ in value;
* `Number.Spelled`         a finite number that is nearest to the value of a spelling;
* `Value.ofLiteral_eq_two_steps`   a pattern with more digits and a reader of more words come to the
                           same.

`Value.ofLiteral_classifies` puts these together.
-/

namespace LineScript

/-! ## parts -/

/-- the sign in front of some digits -/
inductive Sign where
  | absent
  | plus
  | minus
deriving DecidableEq, Repr

namespace Sign

def chars : Sign → List Char
  | .absent => []
  | .plus => ['+']
  | .minus => ['-']

def isMinus : Sign → Bool
  | .minus => true
  | _ => false

end Sign

/-- an exponent as it is written -/
structure Exponent where
  mark : Char
  sign : Sign
  digits : List Char
  mark_eq : mark = 'e' ∨ mark = 'E'
  digits_ne_nil : digits ≠ []
  isDigit : ∀ d ∈ digits, d.isDigit

namespace Exponent

def chars (e : Exponent) : List Char := e.mark :: (e.sign.chars ++ e.digits)

def value (e : Exponent) : Int :=
  let size : Int := Nat.ofDigitChars 10 e.digits 0
  if e.sign.isMinus then -size else size

end Exponent

/-- a decimal literal as it is written.  There is a point if there is a fraction, which may be empty, as
the whole part may be, but not both. -/
structure Spelling where
  sign : Sign
  whole : List Char
  fraction? : Option (List Char)
  exponent? : Option Exponent
  isDigit_whole : ∀ d ∈ whole, d.isDigit
  isDigit_fraction : ∀ d ∈ fraction?.getD [], d.isDigit
  digits_ne_nil : whole ++ fraction?.getD [] ≠ []

/-- a fraction behind its point -/
def pointed : Option (List Char) → List Char
  | none => []
  | some ds => '.' :: ds

/-- an exponent, if there is one -/
def powered : Option Exponent → List Char
  | none => []
  | some e => e.chars

namespace Spelling

variable (s : Spelling)

def chars : List Char :=
  s.sign.chars ++ (s.whole ++ (pointed s.fraction? ++ powered s.exponent?))

def text : String := String.ofList s.chars

def negative : Bool := s.sign.isMinus

/-- the digits behind the point -/
def fraction : List Char := s.fraction?.getD []

def exponent : Int := (s.exponent?.map Exponent.value).getD 0

/-- the value but for the sign: the digits behind the point are worth tenths, hundredths and so on, and
the exponent moves the point -/
def magnitude : ℚ :=
  (Nat.ofDigitChars 10 s.whole 0 + Nat.ofDigitChars 10 s.fraction 0 / 10 ^ s.fraction.length)
    * 10 ^ s.exponent

/-- the same value as a count of powers of ten -/
def literal : Literal :=
  ⟨s.negative, Nat.ofDigitChars 10 (s.whole ++ s.fraction) 0, s.exponent - s.fraction.length⟩

theorem magnitude_eq : s.magnitude = s.literal.digits * 10 ^ s.literal.exponent := by
  rw [magnitude, literal, ofDigitChars_append, zpow_sub₀ (by norm_num), zpow_natCast]
  push_cast
  field_simp

end Spelling

/-- characters that match the pattern of a literal, where `digit` tells what counts as a digit -/
def Patterned (digit : Char → Bool) (cs : List Char) : Prop :=
  ∃ (sign : Sign) (whole : List Char) (fraction? : Option (List Char)) (power : List Char),
    cs = sign.chars ++ (whole ++ (pointed fraction? ++ power)) ∧
    (∀ d ∈ whole ++ fraction?.getD [], digit d) ∧ whole ++ fraction?.getD [] ≠ [] ∧
    (power = [] ∨ ∃ (mark : Char) (sign' : Sign) (ds : List Char),
      power = mark :: (sign'.chars ++ ds) ∧ (mark = 'e' ∨ mark = 'E') ∧ ds ≠ [] ∧
      ∀ d ∈ ds, digit d)

theorem Spelling.patterned (s : Spelling) {digit : Char → Bool} (h : ∀ c, c.isDigit → digit c) :
    Patterned digit s.chars := by
  refine ⟨s.sign, s.whole, s.fraction?, powered s.exponent?, rfl, fun d hd => h d ?_,
    s.digits_ne_nil, ?_⟩
  · exact (List.mem_append.mp hd).elim (s.isDigit_whole d) (s.isDigit_fraction d)
  · cases s.exponent? with
    | none => exact Or.inl rfl
    | some e =>
      exact Or.inr ⟨e.mark, e.sign, e.digits, rfl, e.mark_eq, e.digits_ne_nil,
        fun d hd => h d (e.isDigit d hd)⟩

/-! ## reading the parts -/

namespace Literal

section
variable {cs ds rest : List Char}

theorem readSign_append (s : Sign) (h : ∀ c ∈ rest.head?, c ≠ '+' ∧ c ≠ '-') :
    readSign (s.chars ++ rest) = (s.isMinus, rest) := by
  cases s with
  | plus | minus => rfl
  | absent =>
    show readSign rest = (false, rest)
    unfold readSign
    split
    · exact absurd rfl (h '-' rfl).2
    · exact absurd rfl (h '+' rfl).1
    · rfl

theorem exists_sign (cs : List Char) :
    ∃ s : Sign, s.chars ++ (readSign cs).2 = cs ∧ s.isMinus = (readSign cs).1 := by
  unfold readSign
  split
  · exact ⟨.minus, rfl, rfl⟩
  · exact ⟨.plus, rfl, rfl⟩
  · exact ⟨.absent, rfl, rfl⟩

theorem readDigits_eq (hds : ∀ d ∈ ds, d.isDigit) (h : ∀ c ∈ rest.head?, c.isDigit = false) :
    readDigits (ds ++ rest) = (ds, rest) := by
  have hstop : rest.takeWhile Char.isDigit = [] ∧ rest.dropWhile Char.isDigit = rest := by
    cases rest with
    | nil => exact ⟨rfl, rfl⟩
    | cons c rest => simp [h c rfl]
  rw [readDigits, List.takeWhile_append_of_pos hds, List.dropWhile_append_of_pos hds, hstop.1,
    hstop.2, List.append_nil]

theorem readFraction_eq {f? : Option (List Char)} (hf : ∀ d ∈ f?.getD [], d.isDigit)
    (h : ∀ c ∈ rest.head?, c.isDigit = false ∧ c ≠ '.') :
    readFraction (pointed f? ++ rest) = (f?.getD [], rest) := by
  cases f? with
  | some ds => exact readDigits_eq hf fun c hc => (h c hc).1
  | none =>
    show readFraction rest = ([], rest)
    unfold readFraction
    split
    · exact absurd rfl (h '.' rfl).2
    · rfl

theorem exists_fraction (cs : List Char) :
    ∃ f? : Option (List Char), pointed f? ++ (readFraction cs).2 = cs ∧
      f?.getD [] = (readFraction cs).1 ∧ ∀ d ∈ f?.getD [], d.isDigit := by
  unfold readFraction
  split
  · rename_i cs
    have hsplit := readDigits_append cs
    refine ⟨some (readDigits cs).1, ?_, rfl, fun d hd => isDigit_of_mem_readDigits hd⟩
    rw [pointed, List.cons_append, hsplit]
  · exact ⟨none, rfl, rfl, by simp⟩

theorem ne_sign_of_isDigit {c : Char} (h : c.isDigit) : c ≠ '+' ∧ c ≠ '-' := by
  constructor <;> rintro rfl <;> cases h

theorem readExponent?_powered (e? : Option Exponent) :
    readExponent? (powered e?) = some ((e?.map Exponent.value).getD 0) := by
  cases e? with
  | none => rfl
  | some e =>
    have hhead : ∀ c ∈ e.digits.head?, c ≠ '+' ∧ c ≠ '-' :=
      fun c hc => ne_sign_of_isDigit (e.isDigit c (List.mem_of_mem_head? hc))
    have hall : e.digits.all Char.isDigit := List.all_eq_true.mpr e.isDigit
    show readExponent? (e.mark :: (e.sign.chars ++ e.digits)) = _
    rw [readExponent?, readSign_append e.sign hhead]
    simp only [if_pos (And.intro e.mark_eq (And.intro e.digits_ne_nil hall))]
    rfl

theorem exists_exponent {v : Int} (h : readExponent? cs = some v) :
    ∃ e? : Option Exponent, powered e? = cs ∧ (e?.map Exponent.value).getD 0 = v := by
  cases cs with
  | nil =>
    cases h
    exact ⟨none, rfl, rfl⟩
  | cons mark cs =>
    obtain ⟨sign, hsplit, hminus⟩ := exists_sign cs
    unfold readExponent? at h
    simp only at h
    split at h
    · rename_i hcond
      obtain ⟨hmark, hne, hall⟩ := hcond
      cases h
      refine ⟨some ⟨mark, sign, (readSign cs).2, hmark, hne, List.all_eq_true.mp hall⟩, ?_, ?_⟩
      · rw [powered, Exponent.chars, hsplit]
      · simp only [Option.map_some, Option.getD_some, Exponent.value, hminus]
    · cases h

/-! ## reading literals -/

theorem head?_powered {e? : Option Exponent} :
    ∀ c ∈ (powered e?).head?, c.isDigit = false ∧ c ≠ '.' ∧ c ≠ '+' ∧ c ≠ '-' := by
  cases e? with
  | none => simp [powered]
  | some e =>
    intro c hc
    cases hc
    rcases e.mark_eq with h | h <;> rw [h] <;> decide

/-- what begins with none of the characters in question, and is followed by what does not either -/
theorem head?_append {p : Char → Prop} {a b : List Char} (ha : ∀ c ∈ a.head?, p c)
    (hb : ∀ c ∈ b.head?, p c) : ∀ c ∈ (a ++ b).head?, p c := by
  cases a with
  | nil => exact hb
  | cons d a => exact ha

theorem head?_pointed {f? : Option (List Char)} :
    ∀ c ∈ (pointed f?).head?, c.isDigit = false ∧ c ≠ '+' ∧ c ≠ '-' := by
  cases f? with
  | none => simp [pointed]
  | some ds =>
    intro c hc
    cases hc
    decide

/-- a spelling is taken apart into its parts -/
theorem read?_chars (s : Spelling) : read? s.chars = some s.literal := by
  have hexponent : ∀ c ∈ (powered s.exponent?).head?, c.isDigit = false ∧ c ≠ '.' :=
    fun c hc => ⟨(head?_powered c hc).1, (head?_powered c hc).2.1⟩
  have hfraction : ∀ c ∈ (pointed s.fraction? ++ powered s.exponent?).head?,
      c.isDigit = false ∧ c ≠ '+' ∧ c ≠ '-' :=
    head?_append head?_pointed fun c hc => ⟨(head?_powered c hc).1, (head?_powered c hc).2.2⟩
  have hwhole : ∀ c ∈ (s.whole ++ (pointed s.fraction? ++ powered s.exponent?)).head?,
      c ≠ '+' ∧ c ≠ '-' :=
    head?_append (fun c hc => ne_sign_of_isDigit (s.isDigit_whole c (List.mem_of_mem_head? hc)))
      fun c hc => (hfraction c hc).2
  have hsome : ¬(s.whole = [] ∧ s.fraction?.getD [] = []) := by
    rw [← List.append_eq_nil_iff]
    exact s.digits_ne_nil
  rw [read?, Spelling.chars, readSign_append s.sign hwhole]
  simp only [readDigits_eq s.isDigit_whole fun c hc => (hfraction c hc).1,
    readFraction_eq s.isDigit_fraction hexponent, if_neg hsome, readExponent?_powered]
  rfl

theorem exists_spelling {l : Literal} (h : read? cs = some l) :
    ∃ s : Spelling, s.chars = cs ∧ s.literal = l := by
  obtain ⟨sign, hsign, hminus⟩ := exists_sign cs
  have hwhole := readDigits_append (readSign cs).2
  obtain ⟨f?, hpointed, hfraction, hdigits⟩ := exists_fraction (readDigits (readSign cs).2).2
  simp only [read?] at h
  split at h
  · cases h
  rename_i hsome
  obtain ⟨e, hread, rfl⟩ := Option.map_eq_some_iff.mp h
  obtain ⟨e?, hpowered, hvalue⟩ := exists_exponent hread
  rw [← List.append_eq_nil_iff, ← hfraction] at hsome
  refine ⟨⟨sign, (readDigits (readSign cs).2).1, f?, e?, fun d hd => isDigit_of_mem_readDigits hd,
    hdigits, hsome⟩, ?_, ?_⟩
  · rw [Spelling.chars, hpowered, hpointed, hwhole, hsign]
  · simp only [Spelling.literal, Spelling.negative, Spelling.fraction, Spelling.exponent, hminus,
      hfraction, hvalue]

theorem read?_eq_some_iff {l : Literal} :
    read? cs = some l ↔ ∃ s : Spelling, s.chars = cs ∧ s.literal = l := by
  constructor
  · exact exists_spelling
  · rintro ⟨s, rfl, rfl⟩
    exact read?_chars s

end

theorem isNearest_nearest (s : Spelling) :
    Number.IsNearest s.negative s.magnitude s.literal.nearest := by
  rw [s.magnitude_eq]
  exact Number.isNearest_ofDecimal _ _ _

end Literal

/-! ## numbers and values -/

namespace Number

/-- a text that spells a decimal to which a finite number is nearest -/
def Spelled (n : Number) (t : String) : Prop :=
  n.isFinite ∧ ∃ s : Spelling, s.text = t ∧ IsNearest s.negative s.magnitude n

theorem read?_eq_some_iff {n : Number} {t : String} : read? t = some n ↔ n.Spelled t := by
  rw [read?, Option.filter_eq_some_iff, Option.map_eq_some_iff, and_comm]
  refine and_congr_right fun _ => ?_
  constructor
  · rintro ⟨l, hread, rfl⟩
    obtain ⟨s, hchars, rfl⟩ := Literal.exists_spelling hread
    refine ⟨s, ?_, Literal.isNearest_nearest s⟩
    rw [Spelling.text, hchars, String.ofList_toList]
  · rintro ⟨s, rfl, hn⟩
    refine ⟨s.literal, ?_, (Literal.isNearest_nearest s).unique hn⟩
    rw [Spelling.text, String.toList_ofList, Literal.read?_chars]

end Number

namespace Value

theorem ofLiteral_eq_bool_iff {t : String} {b : Bool} :
    ofLiteral t = .bool b ↔ t = if b then "true" else "false" := by
  unfold ofLiteral
  split
  · rename_i ht
    rw [ht]
    cases b <;> decide
  split
  · rename_i ht
    rw [ht]
    cases b <;> decide
  · rename_i htrue hfalse
    constructor
    · intro h
      split at h <;> cases h
    · intro h
      cases b with
      | true => exact absurd h htrue
      | false => exact absurd h hfalse

theorem ofLiteral_eq_number_iff {t : String} {n : Number} :
    ofLiteral t = .number n ↔ n.Spelled t := by
  rw [← Number.read?_eq_some_iff]
  have htrue : Number.read? "true" = none := by decide +kernel
  have hfalse : Number.read? "false" = none := by decide +kernel
  unfold ofLiteral
  split
  · rename_i ht
    simp [ht, htrue]
  split
  · rename_i ht
    simp [ht, hfalse]
  · cases Number.read? t <;> simp

/-- what is neither a truth value nor a number is a text, and it stays as it is -/
theorem ofLiteral_eq_text_iff {t u : String} :
    ofLiteral t = .text u ↔ u = t ∧ t ≠ "true" ∧ t ≠ "false" ∧ ¬∃ n : Number, n.Spelled t := by
  simp only [← Number.read?_eq_some_iff]
  unfold ofLiteral
  split
  · rename_i ht
    simp [ht]
  split
  · rename_i ht
    simp [ht]
  · rename_i htrue hfalse
    cases Number.read? t <;> simp [htrue, hfalse, eq_comm]

/-- a word may as well be read in two steps: it is matched with the pattern of a literal, in which digits
of other scripts may count too, and then handed to a reader of numbers that knows the ten digits only,
but perhaps words for numbers that are not finite -/
theorem ofLiteral_eq_two_steps {digit : Char → Bool} {fits : String → Bool}
    {number? : String → Option Number} (hdigit : ∀ c, c.isDigit → digit c)
    (hfits : ∀ t, fits t ↔ Patterned digit t.toList)
    (hnumber : ∀ t (n : Number), n.isFinite → (number? t = some n ↔ n.Spelled t)) (t : String) :
    ofLiteral t =
      if t = "true" then .bool true
      else if t = "false" then .bool false
      else match (if fits t then number? t else none).filter Number.isFinite with
        | some n => .number n
        | none => .text t := by
  have hread : (if fits t then number? t else none).filter Number.isFinite = Number.read? t := by
    ext n
    rw [Number.read?_eq_some_iff, Option.filter_eq_some_iff]
    constructor
    · rintro ⟨h, hfinite⟩
      split at h
      · exact (hnumber t n hfinite).mp h
      · cases h
    · intro hspelled
      obtain ⟨s, rfl, -⟩ := hspelled.2
      have hshape : fits s.text := by
        rw [hfits, Spelling.text, String.toList_ofList]
        exact s.patterned hdigit
      rw [if_pos hshape]
      exact ⟨(hnumber _ n hspelled.1).mpr hspelled, hspelled.1⟩
  rw [hread]
  rfl

theorem asNumber_text_iff {t : String} {n : Number} :
    (text t).asNumber = n ↔
      n.Spelled (Text.trim t) ∨ n = .nan ∧ ¬∃ m : Number, m.Spelled (Text.trim t) := by
  simp only [← Number.read?_eq_some_iff]
  unfold asNumber
  cases h : Number.read? (Text.trim t) with
  | none => simp [h, eq_comm]
  | some m => simp [h]

/-- **A bare word is a number exactly if it spells a decimal that is nearest to a finite number.**  The
spellings are those of the grammar, in ASCII digits, and the nearest number is the one nearest to the
exact value, a tie going to the even one.  `true` and `false` are truth values, and every other word is
the text that it was.  A text is read as a number in the same way but for the white space around it, and
is `nan` if it is no such spelling, so it never is infinite. -/
theorem ofLiteral_classifies (t : String) :
    (∀ b, ofLiteral t = .bool b ↔ t = if b then "true" else "false") ∧
    (∀ n, ofLiteral t = .number n ↔ n.Spelled t) ∧
    (∀ u, ofLiteral t = .text u ↔
      u = t ∧ t ≠ "true" ∧ t ≠ "false" ∧ ¬∃ n : Number, n.Spelled t) ∧
    (∀ n, (text t).asNumber = n ↔
      n.Spelled (Text.trim t) ∨ n = .nan ∧ ¬∃ m : Number, m.Spelled (Text.trim t)) ∧
    ∀ negative, (text t).asNumber ≠ .infinite negative := by
  refine ⟨fun b => ofLiteral_eq_bool_iff, fun n => ofLiteral_eq_number_iff,
    fun u => ofLiteral_eq_text_iff, fun n => asNumber_text_iff, fun negative h => ?_⟩
  rcases asNumber_text_iff.mp h with hspelled | ⟨hnan, -⟩
  · exact absurd hspelled.1 Bool.false_ne_true
  · cases hnan

example : ["-0e9", "+.5E-1", "1e999", "1e", ".", "٣", "inf", "0x1"].map ofLiteral =
    [.number (.ofRank true 0), .number (.ofBits 0x3FA999999999999A), .text "1e999", .text "1e",
      .text ".", .text "٣", .text "inf", .text "0x1"] := by
  decide +kernel

end Value

end LineScript
