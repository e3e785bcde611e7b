import LineScript.Text.Utf8

/-!
# Bytes and texts

What is read as UTF-8 is what a text is written as, and nothing else.

* `Utf8.inner`    a byte behind the first one of a character;
* `Utf8.encode`   the bytes of some characters, which are those that a text is stored as
                  (`Utf8.encode_toList`).

`Utf8.decode_eq_ok_iff` says that reading undoes writing.  A character is read back from the bits that
its bytes carry, so its four widths are told apart once, in `Utf8.spelled_encode`.
-/

namespace LineScript.Text.Utf8

/-! ## the bytes of a character -/

theorem toNat_ofNat {n : Nat} (h : n < 0x100) : (UInt8.ofNat n).toNat = n := by
  rw [UInt8.toNat_ofNat']
  exact Nat.mod_eq_of_lt h

/-- a byte behind the first one, with six bits of the character -/
def inner (bits : Nat) : UInt8 := .ofNat (bits % 0x40 + 0x80)

theorem payload_inner (bits : Nat) : (inner bits).toNat % 0x40 = bits % 0x40 := by
  rw [inner, toNat_ofNat (by omega)]
  omega

theorem width_ofNat {n : Nat} (h : n < 0x100) :
    width (.ofNat n) =
      if n < 0x80 then 1 else if n < 0xE0 then 2 else if n < 0xF0 then 3 else 4 := by
  simp only [width, UInt8.lt_iff_toNat_lt, toNat_ofNat h]
  rfl

section
variable {v : Nat} (rest : List UInt8)

theorem spelled_one (h : v ≤ 0x7F) : spelled (.ofNat v) rest = .ofNat v := by
  have hw : width (.ofNat v) = 1 := by
    rw [width_ofNat (by omega), if_pos (by omega)]
  rw [spelled, hw, leadBits, toNat_ofNat (by omega), if_pos rfl, Nat.mod_eq_of_lt (by omega)]
  rfl

theorem spelled_two (h : v ≤ 0x7FF) :
    spelled (.ofNat (v / 64 % 0x20 + 0xC0)) (inner v :: rest) = .ofNat v := by
  have hw : width (.ofNat (v / 64 % 0x20 + 0xC0)) = 2 := by
    rw [width_ofNat (by omega), if_neg (by omega), if_pos (by omega)]
  rw [spelled, hw, leadBits, toNat_ofNat (by omega)]
  show Char.ofNat ((v / 64 % 0x20 + 0xC0) % 0x20 * 0x40 + (inner v).toNat % 0x40) = _
  rw [payload_inner]
  congr 1
  omega

theorem spelled_three (h : v ≤ 0xFFFF) :
    spelled (.ofNat (v / 4096 % 0x10 + 0xE0)) (inner (v / 64) :: inner v :: rest) = .ofNat v := by
  have hw : width (.ofNat (v / 4096 % 0x10 + 0xE0)) = 3 := by
    rw [width_ofNat (by omega), if_neg (by omega), if_neg (by omega), if_pos (by omega)]
  rw [spelled, hw, leadBits, toNat_ofNat (by omega)]
  show Char.ofNat (((v / 4096 % 0x10 + 0xE0) % 0x10 * 0x40 + (inner (v / 64)).toNat % 0x40) * 0x40
    + (inner v).toNat % 0x40) = _
  rw [payload_inner, payload_inner]
  congr 1
  omega

theorem spelled_four (h : v ≤ 0x10FFFF) :
    spelled (.ofNat (v / 262144 % 0x08 + 0xF0))
      (inner (v / 4096) :: inner (v / 64) :: inner v :: rest) = .ofNat v := by
  have hw : width (.ofNat (v / 262144 % 0x08 + 0xF0)) = 4 := by
    rw [width_ofNat (by omega), if_neg (by omega), if_neg (by omega), if_neg (by omega)]
  rw [spelled, hw, leadBits, toNat_ofNat (by omega)]
  show Char.ofNat ((((v / 262144 % 0x08 + 0xF0) % 0x08 * 0x40 + (inner (v / 4096)).toNat % 0x40)
    * 0x40 + (inner (v / 64)).toNat % 0x40) * 0x40 + (inner v).toNat % 0x40) = _
  rw [payload_inner, payload_inner, payload_inner]
  congr 1
  omega

end

/-- the bytes of a character spell it, whatever is behind them -/
theorem spelled_encode {c : Char} {lead : UInt8} {more : List UInt8}
    (h : String.utf8EncodeChar c = lead :: more) (rest : List UInt8) :
    spelled lead (more ++ rest) = c := by
  have hlast : c.val.toNat ≤ 0x10FFFF := by
    have hvalid := c.valid
    simp only [UInt32.isValidChar, Nat.isValidChar] at hvalid
    omega
  have hc : Char.ofNat c.val.toNat = c := Char.ofNat_toNat c
  rw [String.utf8EncodeChar] at h
  split at h
  case isTrue h1 =>
    obtain ⟨rfl, rfl⟩ := List.cons.inj h
    exact (spelled_one _ h1).trans hc
  split at h
  case isTrue h2 =>
    obtain ⟨rfl, rfl⟩ := List.cons.inj h
    exact (spelled_two _ h2).trans hc
  split at h
  case isTrue h3 =>
    obtain ⟨rfl, rfl⟩ := List.cons.inj h
    exact (spelled_three _ h3).trans hc
  case isFalse =>
    obtain ⟨rfl, rfl⟩ := List.cons.inj h
    exact (spelled_four _ hlast).trans hc

theorem firstChar?_encode {c : Char} {lead : UInt8} {more : List UInt8}
    (h : String.utf8EncodeChar c = lead :: more) (rest : List UInt8) :
    firstChar? lead (more ++ rest) = some c := by
  rw [firstChar?]
  simp only [spelled_encode h]
  rw [if_pos]
  rw [h, ← List.cons_append]
  exact List.prefix_append _ _

/-- the bytes of a character are a first one and those behind it -/
theorem exists_utf8EncodeChar (c : Char) : ∃ lead more, String.utf8EncodeChar c = lead :: more :=
  List.exists_cons_of_ne_nil String.utf8EncodeChar_ne_nil

/-- a character is found at the front exactly if it is written there -/
theorem firstChar?_eq_some_iff {lead : UInt8} {rest : List UInt8} {c : Char} :
    firstChar? lead rest = some c ↔ String.utf8EncodeChar c <+: lead :: rest := by
  constructor
  · exact encode_of_firstChar?
  · rintro ⟨left, hleft⟩
    obtain ⟨first, own, hown⟩ := exists_utf8EncodeChar c
    rw [hown, List.cons_append] at hleft
    obtain ⟨rfl, rfl⟩ := List.cons.inj hleft
    exact firstChar?_encode hown left

/-! ## the bytes of a text -/

def encode (cs : List Char) : List UInt8 :=
  cs.flatMap String.utf8EncodeChar

theorem encode_cons (c : Char) (cs : List Char) :
    encode (c :: cs) = String.utf8EncodeChar c ++ encode cs := rfl

theorem encode_append (a b : List Char) : encode (a ++ b) = encode a ++ encode b :=
  List.flatMap_append

/-- a text is stored as these bytes -/
theorem encode_toList (s : String) : encode s.toList = s.toUTF8.data.toList := by
  have h : s.toUTF8 = s.toList.utf8Encode := String.utf8Encode_toList.symm
  rw [h, List.utf8Encode, List.data_toByteArray]
  rfl

/-- the byte of the line feed is in no other character -/
theorem lineFeed_mem_utf8EncodeChar {c : Char} :
    0x0A ∈ String.utf8EncodeChar c ↔ c = '\n' := by
  constructor
  · intro h
    rw [String.utf8EncodeChar] at h
    split at h
    case isTrue h1 =>
      have hbyte := congrArg UInt8.toNat (List.mem_singleton.mp h)
      rw [toNat_ofNat (by omega)] at hbyte
      have hc : Char.ofNat c.val.toNat = c := Char.ofNat_toNat c
      rw [← hc, ← hbyte]
      rfl
    have hother : ∀ n, 0x80 ≤ n → n < 0x100 → (0x0A : UInt8) ≠ .ofNat n := by
      intro n hlow hhigh heq
      have hbyte := congrArg UInt8.toNat heq
      rw [toNat_ofNat hhigh] at hbyte
      have hten : (0x0A : UInt8).toNat = 10 := rfl
      omega
    have hlast := c.valid
    simp only [UInt32.isValidChar, Nat.isValidChar] at hlast
    split at h
    · simp only [List.mem_cons, List.not_mem_nil, or_false] at h
      rcases h with h | h <;> exact absurd h (hother _ (by omega) (by omega))
    split at h
    · simp only [List.mem_cons, List.not_mem_nil, or_false] at h
      rcases h with h | h | h <;> exact absurd h (hother _ (by omega) (by omega))
    · simp only [List.mem_cons, List.not_mem_nil, or_false] at h
      rcases h with h | h | h | h <;> exact absurd h (hother _ (by omega) (by omega))
  · rintro rfl
    decide

theorem lineFeed_mem_encode {cs : List Char} : 0x0A ∈ encode cs ↔ '\n' ∈ cs := by
  simp only [encode, List.mem_flatMap, lineFeed_mem_utf8EncodeChar, exists_eq_right]

/-- what a character is written as is as long as its size, and the rest is behind it -/
theorem drop_encode {c : Char} {lead : UInt8} {more : List UInt8}
    (h : String.utf8EncodeChar c = lead :: more) (rest : List UInt8) :
    (more ++ rest).drop (c.utf8Size - 1) = rest := by
  have hlength : more.length = c.utf8Size - 1 := by
    rw [← String.length_utf8EncodeChar, h]
    rfl
  rw [← hlength, List.drop_left]

theorem append_drop_of_firstChar? {lead : UInt8} {rest : List UInt8} {c : Char}
    (h : firstChar? lead rest = some c) :
    String.utf8EncodeChar c ++ rest.drop (c.utf8Size - 1) = lead :: rest := by
  obtain ⟨left, hleft⟩ := encode_of_firstChar? h
  obtain ⟨first, own, hown⟩ := exists_utf8EncodeChar c
  rw [hown, List.cons_append] at hleft
  obtain ⟨rfl, rfl⟩ := List.cons.inj hleft
  rw [drop_encode hown, hown, List.cons_append]

/-- the bytes of some characters are read, and then what is behind them -/
theorem decodeFrom_append (cs : List Char) (rest : List UInt8) (offset : Nat) (read : List Char) :
    decodeFrom offset read (encode cs ++ rest) =
      decodeFrom (offset + (encode cs).length) (cs.reverse ++ read) rest := by
  induction cs generalizing offset read with
  | nil => rfl
  | cons c cs ih =>
    obtain ⟨lead, more, h⟩ := exists_utf8EncodeChar c
    have hlength : c.utf8Size + (encode cs).length = (encode (c :: cs)).length := by
      rw [encode_cons, List.length_append, String.length_utf8EncodeChar]
    rw [← hlength, encode_cons, h, List.append_assoc, List.cons_append, decodeFrom,
      firstChar?_encode h]
    simp only [drop_encode h, ih, List.reverse_cons, List.append_assoc, List.singleton_append,
      Nat.add_assoc]

theorem decodeFrom_encode (cs : List Char) (offset : Nat) (read : List Char) :
    decodeFrom offset read (encode cs) = .ok (read.reverse ++ cs) := by
  rw [← List.append_nil (encode cs), decodeFrom_append, decodeFrom, List.reverse_append,
    List.reverse_reverse]

theorem eq_encode_of_decodeFrom {offset : Nat} {read cs : List Char} {bytes : List UInt8}
    (h : decodeFrom offset read bytes = .ok cs) :
    ∃ more, cs = read.reverse ++ more ∧ bytes = encode more := by
  fun_induction decodeFrom offset read bytes with
  | case1 offset read =>
    cases h
    exact ⟨[], (List.append_nil _).symm, rfl⟩
  | case2 offset read lead rest hc => cases h
  | case3 offset read lead rest c hc ih =>
    obtain ⟨more, rfl, hmore⟩ := ih h
    refine ⟨c :: more, ?_, ?_⟩
    · rw [List.reverse_cons, List.append_assoc, List.singleton_append]
    · rw [encode_cons, ← hmore, append_drop_of_firstChar? hc]

/-- bytes are read as a text exactly if the text is written as them -/
theorem decode_eq_ok_iff {bytes : List UInt8} {s : String} :
    decode bytes = .ok s ↔ bytes = encode s.toList := by
  constructor
  · intro h
    rw [decode] at h
    cases hd : decodeFrom 0 [] bytes with
    | error offset =>
      rw [hd] at h
      cases h
    | ok cs =>
      rw [hd] at h
      cases h
      obtain ⟨more, rfl, hmore⟩ := eq_encode_of_decodeFrom hd
      rw [hmore]
      simp
  · rintro rfl
    rw [decode, decodeFrom_encode]
    show Except.ok (String.ofList ([] ++ s.toList)) = _
    rw [List.nil_append, String.ofList_toList]

end LineScript.Text.Utf8
