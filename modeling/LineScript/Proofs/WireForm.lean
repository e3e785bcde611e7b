import LineScript.Proofs.Digits
import LineScript.Proofs.Framing

/-!
# Entries on the wire

An entry is written in one way and read in many: a plus sign and zeros in front of its code say nothing.

* `Severity.digit`              the digit that a severity is written as;
* `Entry.spelled`               the texts that are read as an entry;
* `Entry.decode?_eq_some_iff`   there are no others.

`Entry.wire_form` puts these together: what is read is what is written but for that sign and those zeros,
and hosts get the log of a program back from its texts.
-/

namespace LineScript

/-! ## writing -/

def Severity.digit : Severity → Char
  | .info => '0'
  | .warning => '1'
  | .error => '2'
  | .halt => '3'

theorem Severity.toDigits_eq (s : Severity) : Nat.toDigits 10 s.code = [s.digit] := by
  cases s <;> rfl

theorem Severity.digitChar_code (s : Severity) : Nat.digitChar s.code = s.digit := by
  cases s <;> rfl

theorem Severity.code_lt (s : Severity) : s.code < 10 := by
  cases s <;> decide

theorem Severity.exists_digit_iff {d : Char} :
    (∃ s : Severity, s.digit = d) ↔ d ∈ ['0', '1', '2', '3'] := by
  constructor
  · rintro ⟨s, rfl⟩
    cases s <;> decide
  · intro h
    simp only [List.mem_cons, List.not_mem_nil, or_false] at h
    rcases h with rfl | rfl | rfl | rfl
    exacts [⟨.info, rfl⟩, ⟨.warning, rfl⟩, ⟨.error, rfl⟩, ⟨.halt, rfl⟩]

namespace Entry

theorem toList_encode_eq (e : Entry) : e.encode.toList = e.severity.digit :: ',' :: e.message.toList := by
  rw [toList_encode, Severity.toDigits_eq]
  rfl

/-- an entry with a plus sign in front of its code or without, and with any number of zeros -/
def spelled (e : Entry) (plus : Bool) (zeros : Nat) : String :=
  (if plus then "+" else "") ++ String.ofList (List.replicate zeros '0') ++ e.encode

/-- the characters in front of the comma -/
def codeChars (s : Severity) (plus : Bool) (zeros : Nat) : List Char :=
  (if plus then ['+'] else []) ++ (List.replicate zeros '0' ++ [s.digit])

theorem toList_spelled (e : Entry) (plus : Bool) (zeros : Nat) :
    (e.spelled plus zeros).toList = codeChars e.severity plus zeros ++ ',' :: e.message.toList := by
  cases plus <;> simp [spelled, codeChars, toList_encode_eq]

end Entry

/-! ## reading -/

theorem splitComma?_eq_some_iff {cs code message : List Char} :
    splitComma? cs = some (code, message) ↔ ',' ∉ code ∧ cs = code ++ ',' :: message := by
  constructor
  · intro h
    unfold splitComma? at h
    split at h
    · cases h
    · rename_i c behind hdrop
      obtain ⟨rfl, rfl⟩ := Prod.mk.inj (Option.some.inj h)
      have hcomma : c = ',' := by
        have hhead := List.head?_dropWhile_not (· != ',') cs
        rw [hdrop] at hhead
        simpa using hhead
      constructor
      · intro hmem
        have hbefore := List.all_eq_true.mp List.all_takeWhile ',' hmem
        simp at hbefore
      · subst hcomma
        rw [← hdrop, List.takeWhile_append_dropWhile]
  · rintro ⟨hcode, rfl⟩
    exact splitComma?_append hcode message

/-- a text is what is left of it without a plus sign, behind the plus sign or without one -/
theorem exists_dropPlus (cs : List Char) :
    ∃ plus : Bool, cs = (if plus then ['+'] else []) ++ dropPlus cs := by
  unfold dropPlus
  split
  · exact ⟨true, rfl⟩
  · exact ⟨false, rfl⟩

theorem dropPlus_codeChars (s : Severity) (plus : Bool) (zeros : Nat) :
    dropPlus (Entry.codeChars s plus zeros) = List.replicate zeros '0' ++ [s.digit] := by
  cases plus with
  | true => rfl
  | false =>
    cases zeros with
    | zero => cases s <;> rfl
    | succ zeros => rfl

theorem readCode?_eq_some_iff {cs : List Char} {s : Severity} :
    readCode? cs = some s.code ↔ ∃ plus zeros, cs = Entry.codeChars s plus zeros := by
  simp only [readCode?, Option.ite_none_right_eq_some, Option.some.injEq]
  constructor
  · rintro ⟨⟨hne, hall⟩, hvalue⟩
    obtain ⟨plus, hplus⟩ := exists_dropPlus cs
    obtain ⟨zeros, hzeros⟩ := eq_zeros_append_of_lt_ten hne (List.all_eq_true.mp hall)
      (hvalue ▸ s.code_lt)
    rw [hvalue, s.digitChar_code] at hzeros
    exact ⟨plus, zeros, by rw [hplus, hzeros, Entry.codeChars]⟩
  · rintro ⟨plus, zeros, rfl⟩
    rw [dropPlus_codeChars]
    refine ⟨⟨by simp, ?_⟩, ?_⟩
    · have hdigit : s.digit.isDigit := by cases s <;> rfl
      simpa using hdigit
    · rw [ofDigitChars_concat, Nat.ofDigitChars_replicate_zero, Nat.mul_zero, Nat.zero_mul,
        Nat.zero_add]
      cases s <;> rfl

namespace Entry

theorem comma_not_mem_codeChars (s : Severity) (plus : Bool) (zeros : Nat) :
    ',' ∉ codeChars s plus zeros := by
  have hdigit : s.digit ≠ ',' := by cases s <;> decide
  cases plus <;> simp [codeChars, hdigit.symm]

theorem decode?_eq_some_iff {s : String} {e : Entry} :
    decode? s = some e ↔ ∃ plus zeros, s = e.spelled plus zeros := by
  constructor
  · intro h
    simp only [decode?, Option.bind_eq_bind, Option.bind_eq_some_iff, Option.pure_def,
      Option.some.injEq] at h
    obtain ⟨⟨code, message⟩, hsplit, k, hk, severity, hs, rfl⟩ := h
    rw [Severity.ofCode?_eq_some_iff.mp hs] at hk
    obtain ⟨plus, zeros, hcode⟩ := readCode?_eq_some_iff.mp hk
    refine ⟨plus, zeros, String.toList_inj.mp ?_⟩
    simp only at hcode
    rw [(splitComma?_eq_some_iff.mp hsplit).2, toList_spelled, hcode]
    simp only [String.toList_ofList]
  · rintro ⟨plus, zeros, rfl⟩
    have hread : readCode? (codeChars e.severity plus zeros) = some e.severity.code :=
      readCode?_eq_some_iff.mpr ⟨plus, zeros, rfl⟩
    unfold decode?
    rw [toList_spelled, splitComma?_append (comma_not_mem_codeChars _ _ _)]
    simp only [Option.bind_eq_bind, Option.bind_some, hread, Severity.ofCode?_code,
      String.ofList_toList, Option.pure_def]

theorem isSome_decode?_iff {s : String} :
    (decode? s).isSome ↔ ∃ (plus : Bool) (zeros : Nat) (digit : Char) (message : String),
      digit ∈ ['0', '1', '2', '3'] ∧
      s.toList = (if plus then ['+'] else []) ++ List.replicate zeros '0' ++
        digit :: ',' :: message.toList := by
  rw [Option.isSome_iff_exists]
  simp only [decode?_eq_some_iff]
  constructor
  · rintro ⟨e, plus, zeros, rfl⟩
    refine ⟨plus, zeros, e.severity.digit, e.message, Severity.exists_digit_iff.mp ⟨_, rfl⟩, ?_⟩
    simp [toList_spelled, codeChars]
  · rintro ⟨plus, zeros, digit, message, hd, hs⟩
    obtain ⟨severity, rfl⟩ := Severity.exists_digit_iff.mpr hd
    refine ⟨⟨severity, message⟩, plus, zeros, String.toList_inj.mp ?_⟩
    simp [hs, toList_spelled, codeChars]

/-- the message is what is behind the first comma -/
theorem tail_dropWhile_spelled (e : Entry) (plus : Bool) (zeros : Nat) :
    ((e.spelled plus zeros).toList.dropWhile (· != ',')).tail = e.message.toList := by
  have hcode : ∀ c ∈ codeChars e.severity plus zeros, (c != ',') = true := by
    intro c hc
    rw [bne_iff_ne]
    rintro rfl
    exact comma_not_mem_codeChars _ _ _ hc
  rw [toList_spelled, List.dropWhile_append_of_pos hcode]
  rfl

/-- **An entry is read back from what is written on the wire, and nothing else is read.**  An entry is
written as the digit of its severity, a comma and its message.  A text is read exactly if it is a digit
from 0 to 3, with any number of zeros and perhaps a plus sign in front, a comma and anything.  The entry
that is read is written as the same text without that sign and without those zeros, and its message is
what is behind the first comma.  So hosts get the log of a program back from its texts, entry by entry,
and can render it from them. -/
theorem wire_form :
    (∀ e : Entry, e.encode.toList = e.severity.digit :: ',' :: e.message.toList ∧
      decode? e.encode = some e) ∧
    (∀ s : String, (decode? s).isSome ↔
      ∃ (plus : Bool) (zeros : Nat) (digit : Char) (message : String), digit ∈ ['0', '1', '2', '3'] ∧
        s.toList = (if plus then ['+'] else []) ++ List.replicate zeros '0' ++
          digit :: ',' :: message.toList) ∧
    (∀ (s : String) (e : Entry), decode? s = some e ↔
      ∃ (plus : Bool) (zeros : Nat), s =
        (if plus then "+" else "") ++ String.ofList (List.replicate zeros '0') ++ e.encode) ∧
    (∀ (e : Entry) (plus : Bool) (zeros : Nat),
      ((e.spelled plus zeros).toList.dropWhile (· != ',')).tail = e.message.toList) ∧
    ∀ (i : Interpreter) (p : Program),
      (i.parse p).map decode? = (i.evaluate p).map some ∧
      (i.parse p).map renderEncoded? = (i.evaluate p).map fun e => some e.render := by
  refine ⟨fun e => ⟨e.toList_encode_eq, e.decode?_encode⟩, fun s => isSome_decode?_iff,
    fun s e => decode?_eq_some_iff, tail_dropWhile_spelled, fun i p => ?_⟩
  unfold Interpreter.parse
  rw [List.map_map, List.map_map]
  constructor
  · exact List.map_congr_left fun e _ => e.decode?_encode
  · exact List.map_congr_left fun e _ => congrArg (Option.map render) e.decode?_encode

end Entry

end LineScript
