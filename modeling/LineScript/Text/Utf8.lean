/-!
# Reading bytes as UTF-8

A text is stored as the bytes that encode its characters.  Reading is strict: some bytes are a
character only when they are what the character is written as, so overlong forms, surrogates and
code points beyond the last one are refused together with truncated and stray bytes.

* `firstChar?`  the character at the front of some bytes;
* `decode`      all characters, or the number of bytes in front of the first bad sequence.
-/

namespace LineScript.Text.Utf8

/-! ## one character -/

/-- the number of bytes that a first byte announces -/
def width (lead : UInt8) : Nat :=
  if lead < 0x80 then 1 else if lead < 0xE0 then 2 else if lead < 0xF0 then 3 else 4

/-- the payload bits of a first byte that announces `n` bytes -/
def leadBits (n : Nat) (lead : UInt8) : Nat :=
  lead.toNat % if n = 1 then 0x80 else if n = 2 then 0x20 else if n = 3 then 0x10 else 0x08

/-- the character that the payload bits of a first byte and of the bytes after it spell -/
def spelled (lead : UInt8) (rest : List UInt8) : Char :=
  Char.ofNat <| (rest.take (width lead - 1)).foldl (fun bits b => bits * 0x40 + b.toNat % 0x40)
    (leadBits (width lead) lead)

/-- the character at the front: the one spelled there, if it is written as it is spelled -/
def firstChar? (lead : UInt8) (rest : List UInt8) : Option Char :=
  let c := spelled lead rest
  if String.utf8EncodeChar c <+: lead :: rest then some c else none

/-- what `firstChar?` finds is written at the front -/
theorem encode_of_firstChar? {lead : UInt8} {rest : List UInt8} {c : Char}
    (h : firstChar? lead rest = some c) : String.utf8EncodeChar c <+: lead :: rest := by
  simp only [firstChar?] at h
  split at h
  · simp_all
  · simp at h

/-! ## a whole text -/

/-- reads on from byte `offset`, with the characters read so far, last first -/
def decodeFrom (offset : Nat) (read : List Char) : List UInt8 → Except Nat (List Char)
  | [] => .ok read.reverse
  | lead :: rest =>
    match firstChar? lead rest with
    | none => .error offset
    | some c => decodeFrom (offset + c.utf8Size) (c :: read) (rest.drop (c.utf8Size - 1))
termination_by bytes => bytes.length
decreasing_by simp only [List.length_drop, List.length_cons]; omega

/-- the text that some bytes encode, or the number of bytes in front of the first bad sequence -/
def decode (bytes : List UInt8) : Except Nat String :=
  (decodeFrom 0 [] bytes).map String.ofList

end LineScript.Text.Utf8
