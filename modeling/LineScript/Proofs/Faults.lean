import Mathlib.Data.List.Basic
import Mathlib.Order.Bounds.Basic
import LineScript.Program
import LineScript.Proofs.Encoding

/-!
# Where bytes stop being a text

The reader takes a character if the bytes at the front are what the character is written as.  Here this
is compared with what can be told from the bytes alone: which of them begin a character, how many
belong to it, and between which limits the second one lies.

* `Utf8.WellFormed`   a first byte and the bytes behind it, as the form allows them;
* `Utf8.Fault`        what is wrong at the front of some bytes: one rule for each kind of defect;
* `Utf8.fault_iff`    there is a fault exactly where no character is written;
* `Utf8.decode_eq_error_iff`   reading stops at the first fault, behind a text.

No character is written as the beginning of another (`Utf8.eq_of_utf8EncodeChar_prefix`), so the text in
front of a fault is the longest that the bytes begin with.  `Program.ofBytes_accepts_utf8` puts these
together.
-/

namespace LineScript

namespace Text.Utf8

/-! ## well-formed sequences -/

/-- a byte that stands behind the first one of a character and is never the first -/
def IsInner (b : UInt8) : Prop := 0x80 ≤ b ∧ b < 0xC0

/-- a byte may stand right behind a first one: below these limits the form is overlong, above them it
spells a surrogate or goes beyond the last code point -/
def Fits (lead b : UInt8) : Prop :=
  (lead = 0xE0 → 0xA0 ≤ b) ∧ (lead = 0xED → b < 0xA0) ∧ (lead = 0xF0 → 0x90 ≤ b) ∧
    (lead = 0xF4 → b < 0x90)

/-- a first byte with the bytes behind it that make up a character -/
structure WellFormed (lead : UInt8) (more : List UInt8) : Prop where
  leads : lead < 0x80 ∨ 0xC2 ≤ lead ∧ lead < 0xF5
  length_eq : more.length + 1 = width lead
  isInner : ∀ b ∈ more, IsInner b
  fits : ∀ b ∈ more.head?, Fits lead b

/-! ### the limits as numbers -/

theorem isInner_iff {b : UInt8} : IsInner b ↔ 0x80 ≤ b.toNat ∧ b.toNat < 0xC0 := Iff.rfl

theorem fits_iff {lead b : UInt8} : Fits lead b ↔
    (lead.toNat = 0xE0 → 0xA0 ≤ b.toNat) ∧ (lead.toNat = 0xED → b.toNat < 0xA0) ∧
      (lead.toNat = 0xF0 → 0x90 ≤ b.toNat) ∧ (lead.toNat = 0xF4 → b.toNat < 0x90) := by
  simp only [Fits, ← UInt8.toNat_inj]
  rfl

theorem width_eq (lead : UInt8) : width lead =
    if lead.toNat < 0x80 then 1 else if lead.toNat < 0xE0 then 2 else if lead.toNat < 0xF0 then 3
      else 4 := rfl

theorem ofNat_eq_iff {n : Nat} {b : UInt8} (h : n < 0x100) : UInt8.ofNat n = b ↔ n = b.toNat := by
  rw [← UInt8.toNat_inj, toNat_ofNat h]

theorem inner_eq_iff {bits : Nat} {b : UInt8} : inner bits = b ↔ bits % 0x40 + 0x80 = b.toNat :=
  ofNat_eq_iff (by omega)

theorem isInner_inner (bits : Nat) : IsInner (inner bits) := by
  rw [isInner_iff, inner, toNat_ofNat (by omega)]
  omega

theorem leads_ofNat {n : Nat} (hlow : 0xC2 ≤ n) (hhigh : n < 0xF5) :
    0xC2 ≤ UInt8.ofNat n ∧ UInt8.ofNat n < 0xF5 := by
  rw [UInt8.le_iff_toNat_le, UInt8.lt_iff_toNat_lt, toNat_ofNat (by omega)]
  exact ⟨hlow, hhigh⟩

/-- the bytes of a character by its code point -/
theorem utf8EncodeChar_ofNat {v : Nat} (h : v.isValidChar) : String.utf8EncodeChar (.ofNat v) =
    if v ≤ 0x7F then [.ofNat v]
    else if v ≤ 0x7FF then [.ofNat (v / 64 % 0x20 + 0xC0), inner v]
    else if v ≤ 0xFFFF then [.ofNat (v / 4096 % 0x10 + 0xE0), inner (v / 64), inner v]
    else [.ofNat (v / 262144 % 0x08 + 0xF0), inner (v / 4096), inner (v / 64), inner v] := by
  have hv : (Char.ofNat v).val.toNat = v := by
    rw [Char.ofNat, dif_pos h]
    rfl
  rw [String.utf8EncodeChar, hv]
  rfl

/-! ### every character is written as a well-formed sequence -/

section
variable {v : Nat}

theorem wellFormed_one (h : v ≤ 0x7F) : WellFormed (.ofNat v) [] := by
  refine ⟨Or.inl ?_, ?_, by simp, by simp⟩
  · rw [UInt8.lt_iff_toNat_lt, toNat_ofNat (by omega)]
    exact Nat.lt_succ_of_le h
  · rw [width_ofNat (by omega), if_pos (by omega)]
    rfl

theorem wellFormed_two (hlow : 0x7F < v) (hhigh : v ≤ 0x7FF) :
    WellFormed (.ofNat (v / 64 % 0x20 + 0xC0)) [inner v] := by
  refine ⟨Or.inr (leads_ofNat (by omega) (by omega)), ?_, by simp [isInner_inner], ?_⟩
  · rw [width_ofNat (by omega), if_neg (by omega), if_pos (by omega)]
    rfl
  · intro b _
    rw [fits_iff, toNat_ofNat (by omega)]
    omega

theorem wellFormed_three (hlow : 0x7FF < v) (hhigh : v ≤ 0xFFFF) (h : v < 0xD800 ∨ 0xDFFF < v) :
    WellFormed (.ofNat (v / 4096 % 0x10 + 0xE0)) [inner (v / 64), inner v] := by
  refine ⟨Or.inr (leads_ofNat (by omega) (by omega)), ?_, by simp [isInner_inner], ?_⟩
  · rw [width_ofNat (by omega), if_neg (by omega), if_neg (by omega), if_pos (by omega)]
    rfl
  · intro b hb
    cases hb
    rw [fits_iff, inner, toNat_ofNat (by omega), toNat_ofNat (by omega)]
    omega

theorem wellFormed_four (hlow : 0xFFFF < v) (hhigh : v ≤ 0x10FFFF) :
    WellFormed (.ofNat (v / 262144 % 0x08 + 0xF0)) [inner (v / 4096), inner (v / 64), inner v] := by
  refine ⟨Or.inr (leads_ofNat (by omega) (by omega)), ?_, by simp [isInner_inner], ?_⟩
  · rw [width_ofNat (by omega), if_neg (by omega), if_neg (by omega), if_neg (by omega)]
    rfl
  · intro b hb
    cases hb
    rw [fits_iff, inner, toNat_ofNat (by omega), toNat_ofNat (by omega)]
    omega

end

theorem wellFormed_of_encode {c : Char} {lead : UInt8} {more : List UInt8}
    (h : String.utf8EncodeChar c = lead :: more) : WellFormed lead more := by
  have hvalid : c.toNat.isValidChar := c.valid
  rw [← Char.ofNat_toNat c, utf8EncodeChar_ofNat hvalid] at h
  rw [Nat.isValidChar] at hvalid
  split at h
  case isTrue h1 =>
    obtain ⟨rfl, rfl⟩ := List.cons.inj h
    exact wellFormed_one h1
  split at h
  case isTrue h2 =>
    obtain ⟨rfl, rfl⟩ := List.cons.inj h
    exact wellFormed_two (by omega) h2
  split at h
  case isTrue h3 =>
    obtain ⟨rfl, rfl⟩ := List.cons.inj h
    exact wellFormed_three (by omega) h3 (by omega)
  case isFalse =>
    obtain ⟨rfl, rfl⟩ := List.cons.inj h
    exact wellFormed_four (by omega) (by omega)

/-! ### every well-formed sequence is what a character is written as -/

section
variable {lead a b c : UInt8}

theorem exists_encode_two (hlow : 0xC2 ≤ lead.toNat) (hhigh : lead.toNat < 0xE0) (ha : IsInner a) :
    ∃ c, String.utf8EncodeChar c = [lead, a] := by
  rw [isInner_iff] at ha
  refine ⟨.ofNat ((lead.toNat - 0xC0) * 64 + (a.toNat - 0x80)), ?_⟩
  rw [utf8EncodeChar_ofNat (by rw [Nat.isValidChar]; omega), if_neg (by omega), if_pos (by omega),
    (ofNat_eq_iff (b := lead) (by omega)).mpr (by omega), inner_eq_iff (b := a).mpr (by omega)]

theorem exists_encode_three (hlow : 0xE0 ≤ lead.toNat) (hhigh : lead.toNat < 0xF0)
    (hfit : Fits lead a) (ha : IsInner a) (hb : IsInner b) :
    ∃ c, String.utf8EncodeChar c = [lead, a, b] := by
  rw [isInner_iff] at ha hb
  rw [fits_iff] at hfit
  refine ⟨.ofNat ((lead.toNat - 0xE0) * 4096 + (a.toNat - 0x80) * 64 + (b.toNat - 0x80)), ?_⟩
  rw [utf8EncodeChar_ofNat (by rw [Nat.isValidChar]; omega), if_neg (by omega), if_neg (by omega),
    if_pos (by omega), (ofNat_eq_iff (b := lead) (by omega)).mpr (by omega),
    inner_eq_iff (b := a).mpr (by omega), inner_eq_iff (b := b).mpr (by omega)]

theorem exists_encode_four (hlow : 0xF0 ≤ lead.toNat) (hhigh : lead.toNat < 0xF5)
    (hfit : Fits lead a) (ha : IsInner a) (hb : IsInner b) (hc : IsInner c) :
    ∃ d, String.utf8EncodeChar d = [lead, a, b, c] := by
  rw [isInner_iff] at ha hb hc
  rw [fits_iff] at hfit
  refine ⟨.ofNat ((lead.toNat - 0xF0) * 262144 + (a.toNat - 0x80) * 4096 + (b.toNat - 0x80) * 64
    + (c.toNat - 0x80)), ?_⟩
  rw [utf8EncodeChar_ofNat (by rw [Nat.isValidChar]; omega), if_neg (by omega), if_neg (by omega),
    if_neg (by omega), (ofNat_eq_iff (b := lead) (by omega)).mpr (by omega),
    inner_eq_iff (b := a).mpr (by omega), inner_eq_iff (b := b).mpr (by omega),
    inner_eq_iff (b := c).mpr (by omega)]

end

theorem exists_of_wellFormed {lead : UInt8} {more : List UInt8} (h : WellFormed lead more) :
    ∃ c, String.utf8EncodeChar c = lead :: more := by
  obtain ⟨hleads, hlength, hinner, hfits⟩ := h
  replace hleads : lead.toNat < 0x80 ∨ 0xC2 ≤ lead.toNat ∧ lead.toNat < 0xF5 := hleads
  rw [width_eq] at hlength
  split at hlength
  case isTrue h1 =>
    obtain rfl : more = [] := List.eq_nil_of_length_eq_zero (Nat.succ.inj hlength)
    refine ⟨.ofNat lead.toNat, ?_⟩
    rw [utf8EncodeChar_ofNat (by rw [Nat.isValidChar]; omega), if_pos (by omega), UInt8.ofNat_toNat]
  split at hlength
  case isTrue h2 =>
    obtain ⟨a, rfl⟩ := List.length_eq_one_iff.mp (Nat.succ.inj hlength)
    exact exists_encode_two (by omega) h2 (hinner a (by simp))
  split at hlength
  case isTrue h3 =>
    obtain ⟨a, b, rfl⟩ := List.length_eq_two.mp (Nat.succ.inj hlength)
    exact exists_encode_three (by omega) h3 (hfits a rfl) (hinner a (by simp)) (hinner b (by simp))
  case isFalse h4 =>
    obtain ⟨a, b, c, rfl⟩ := List.length_eq_three.mp (Nat.succ.inj hlength)
    exact exists_encode_four (by omega) (by omega) (hfits a rfl) (hinner a (by simp))
      (hinner b (by simp)) (hinner c (by simp))

/-! ## faults -/

/-- what is wrong with bytes at whose front no character is written -/
inductive Fault : List UInt8 → Prop where
  /-- a byte that belongs behind a first one -/
  | stray {b : UInt8} (hb : IsInner b) (rest : List UInt8) : Fault (b :: rest)
  /-- two bytes for a code point that one has room for -/
  | overlongTwo {lead : UInt8} (h : lead = 0xC0 ∨ lead = 0xC1) (rest : List UInt8) :
      Fault (lead :: rest)
  /-- three bytes for a code point that two have room for -/
  | overlongThree {b : UInt8} (hb : IsInner b) (h : b < 0xA0) (rest : List UInt8) :
      Fault (0xE0 :: b :: rest)
  /-- four bytes for a code point that three have room for -/
  | overlongFour {b : UInt8} (hb : IsInner b) (h : b < 0x90) (rest : List UInt8) :
      Fault (0xF0 :: b :: rest)
  /-- a code point from `0xD800` to `0xDFFF` -/
  | surrogate {b : UInt8} (hb : IsInner b) (h : 0xA0 ≤ b) (rest : List UInt8) :
      Fault (0xED :: b :: rest)
  /-- a code point from `0x110000` to `0x13FFFF` -/
  | beyond {b : UInt8} (hb : IsInner b) (h : 0x90 ≤ b) (rest : List UInt8) :
      Fault (0xF4 :: b :: rest)
  /-- a code point from `0x140000` on, or a byte that begins no form at all -/
  | farBeyond {lead : UInt8} (h : 0xF5 ≤ lead) (rest : List UInt8) : Fault (lead :: rest)
  /-- fewer bytes than the first one announces, in front of a byte that is not inner or of the end -/
  | cutOff {lead : UInt8} {own rest : List UInt8} (hlead : 0xC0 ≤ lead)
      (hown : own.length + 1 < width lead) (hrest : ∀ b ∈ rest.head?, ¬IsInner b) :
      Fault (lead :: (own ++ rest))

/-! ### without a fault there is a well-formed sequence -/

section
variable {lead : UInt8} {rest : List UInt8}

theorem leads_of_not_fault (h : ¬Fault (lead :: rest)) :
    lead < 0x80 ∨ 0xC2 ≤ lead ∧ lead < 0xF5 := by
  have hstray : ¬IsInner lead := fun hb => h (.stray hb rest)
  have hoverlong : ¬(lead = 0xC0 ∨ lead = 0xC1) := fun hlead => h (.overlongTwo hlead rest)
  have hfar : ¬0xF5 ≤ lead := fun hlead => h (.farBeyond hlead rest)
  grind [IsInner]

theorem fits_of_not_fault {a : UInt8} (ha : IsInner a) (h : ¬Fault (lead :: a :: rest)) :
    Fits lead a := by
  refine ⟨?_, ?_, ?_, ?_⟩
  · rintro rfl
    exact UInt8.not_lt.mp fun hlow => h (.overlongThree ha hlow rest)
  · rintro rfl
    exact UInt8.not_le.mp fun hhigh => h (.surrogate ha hhigh rest)
  · rintro rfl
    exact UInt8.not_lt.mp fun hlow => h (.overlongFour ha hlow rest)
  · rintro rfl
    exact UInt8.not_le.mp fun hhigh => h (.beyond ha hhigh rest)

/-- the inner bytes at the front of some bytes -/
theorem exists_inner_append (bytes : List UInt8) : ∃ own rest, bytes = own ++ rest ∧
    (∀ b ∈ own, IsInner b) ∧ ∀ b ∈ rest.head?, ¬IsInner b := by
  induction bytes with
  | nil => exact ⟨[], [], rfl, by simp, by simp⟩
  | cons a bytes ih =>
    by_cases ha : IsInner a
    · obtain ⟨own, rest, rfl, hown, hrest⟩ := ih
      exact ⟨a :: own, rest, rfl, List.forall_mem_cons.mpr ⟨ha, hown⟩, hrest⟩
    · exact ⟨[], a :: bytes, rfl, by simp, by simpa using ha⟩

theorem exists_wellFormed_of_not_fault (h : ¬Fault (lead :: rest)) :
    ∃ more, WellFormed lead more ∧ more <+: rest := by
  have hleads := leads_of_not_fault h
  have hpos : 0 < width lead := by grind [width]
  obtain ⟨own, behind, rfl, hinner, hbehind⟩ := exists_inner_append rest
  -- with fewer inner bytes than announced the sequence would be cut off
  have henough : width lead ≤ own.length + 1 := by
    rcases hleads with hlow | ⟨hlow, -⟩
    · rw [width, if_pos hlow]
      omega
    · have hlead : 0xC0 ≤ lead := by grind
      exact Nat.not_lt.mp fun hshort => h (.cutOff hlead hshort hbehind)
  have hprefix : own.take (width lead - 1) <+: own ++ behind :=
    (List.take_prefix _ _).trans (List.prefix_append _ _)
  refine ⟨own.take (width lead - 1), ⟨hleads, ?_, ?_, ?_⟩, hprefix⟩
  · rw [List.length_take_of_le (by omega)]
    omega
  · exact fun b hb => hinner b (List.mem_of_mem_take hb)
  · intro a ha
    obtain ⟨more, hmore⟩ := List.head?_eq_some_iff.mp ha
    obtain ⟨left, hleft⟩ := hprefix
    rw [← hleft, hmore] at h
    exact fits_of_not_fault (hinner a (List.mem_of_mem_take (List.mem_of_mem_head? ha))) h

/-! ### with a fault there is none -/

namespace WellFormed
variable {more : List UInt8}

/-- the byte behind a first byte that announces more fits -/
theorem fits_of_prefix {a : UInt8} (h : WellFormed lead more) (hp : more <+: a :: rest)
    (hwidth : 1 < width lead) : Fits lead a := by
  have hlength := h.length_eq
  cases more with
  | nil =>
    rw [List.length_nil] at hlength
    omega
  | cons b more =>
    obtain ⟨rfl, -⟩ := List.cons_prefix_cons.mp hp
    exact h.fits b rfl

/-- behind fewer bytes than announced a sequence goes on with an inner byte -/
theorem not_short {own behind : List UInt8} (h : WellFormed lead more) (hp : more <+: own ++ behind)
    (hown : own.length + 1 < width lead) : ∃ b ∈ behind.head?, IsInner b := by
  have hlength := h.length_eq
  have hinside : own <+: more :=
    List.prefix_of_prefix_length_le (List.prefix_append _ _) hp (by omega)
  obtain ⟨left, rfl⟩ := hinside
  cases left with
  | nil =>
    rw [List.append_nil] at hlength
    omega
  | cons b left =>
    obtain ⟨last, rfl⟩ := (List.prefix_append_right_inj own).mp hp
    exact ⟨b, rfl, h.isInner b (by simp)⟩

theorem not_fault (h : WellFormed lead more) (hp : more <+: rest) : ¬Fault (lead :: rest) := by
  have hleads := h.leads
  intro hfault
  cases hfault with
  | stray hb => grind [IsInner]
  | overlongTwo hlead => grind
  | farBeyond hlead => grind
  | overlongThree hb hlow =>
    exact absurd ((h.fits_of_prefix hp (by decide)).1 rfl) (UInt8.not_le.mpr hlow)
  | surrogate hb hhigh =>
    exact absurd ((h.fits_of_prefix hp (by decide)).2.1 rfl) (UInt8.not_lt.mpr hhigh)
  | overlongFour hb hlow =>
    exact absurd ((h.fits_of_prefix hp (by decide)).2.2.1 rfl) (UInt8.not_le.mpr hlow)
  | beyond hb hhigh =>
    exact absurd ((h.fits_of_prefix hp (by decide)).2.2.2 rfl) (UInt8.not_lt.mpr hhigh)
  | cutOff hlead hown hrest =>
    obtain ⟨b, hb, hinner⟩ := h.not_short hp hown
    exact hrest b hb hinner

end WellFormed

/-- there is a fault at the front of some bytes exactly if no character is written there -/
theorem fault_iff :
    Fault (lead :: rest) ↔ ∀ c, ¬String.utf8EncodeChar c <+: lead :: rest := by
  constructor
  · intro hfault c hc
    obtain ⟨first, more, hown⟩ := exists_utf8EncodeChar c
    rw [hown, List.cons_prefix_cons] at hc
    obtain ⟨rfl, hp⟩ := hc
    exact (wellFormed_of_encode hown).not_fault hp hfault
  · intro h
    by_contra hfault
    obtain ⟨more, hmore, hp⟩ := exists_wellFormed_of_not_fault hfault
    obtain ⟨c, hc⟩ := exists_of_wellFormed hmore
    refine h c ?_
    rw [hc, List.cons_prefix_cons]
    exact ⟨rfl, hp⟩

/-! ## where reading stops -/

theorem firstChar?_eq_none_iff : firstChar? lead rest = none ↔ Fault (lead :: rest) := by
  rw [Option.eq_none_iff_forall_ne_some, fault_iff]
  exact forall_congr' fun c => not_congr firstChar?_eq_some_iff

end

section
variable {bad : List UInt8}

theorem Fault.decodeFrom_eq (h : Fault bad) (offset : Nat) (read : List Char) :
    decodeFrom offset read bad = .error offset := by
  cases bad with
  | nil => cases h
  | cons lead rest => rw [decodeFrom, firstChar?_eq_none_iff.mpr h]

theorem exists_of_decodeFrom_error {offset n : Nat} {read : List Char} {bytes : List UInt8}
    (h : decodeFrom offset read bytes = .error n) :
    ∃ cs bad, Fault bad ∧ bytes = encode cs ++ bad ∧ n = offset + (encode cs).length := by
  fun_induction decodeFrom offset read bytes with
  | case1 offset read => cases h
  | case2 offset read lead rest hc =>
    cases h
    exact ⟨[], lead :: rest, firstChar?_eq_none_iff.mp hc, rfl, rfl⟩
  | case3 offset read lead rest c hc ih =>
    obtain ⟨cs, bad, hbad, hrest, rfl⟩ := ih h
    refine ⟨c :: cs, bad, hbad, ?_, ?_⟩
    · rw [encode_cons, List.append_assoc, ← hrest, append_drop_of_firstChar? hc]
    · rw [encode_cons, List.length_append, String.length_utf8EncodeChar, Nat.add_assoc]

/-- reading stops at a fault that is behind a text, and nowhere else -/
theorem decode_eq_error_iff {bytes : List UInt8} {n : Nat} :
    decode bytes = .error n ↔ ∃ (s : String) (bad : List UInt8), Fault bad ∧
      encode s.toList ++ bad = bytes ∧ (encode s.toList).length = n := by
  constructor
  · intro h
    rw [decode] at h
    cases hd : decodeFrom 0 [] bytes with
    | ok cs =>
      rw [hd] at h
      cases h
    | error m =>
      rw [hd] at h
      cases h
      obtain ⟨cs, bad, hbad, rfl, rfl⟩ := exists_of_decodeFrom_error hd
      refine ⟨.ofList cs, bad, hbad, ?_, ?_⟩
      · rw [String.toList_ofList]
      · rw [String.toList_ofList, Nat.zero_add]
  · rintro ⟨s, bad, hbad, rfl, rfl⟩
    rw [decode, decodeFrom_append, hbad.decodeFrom_eq, Nat.zero_add]
    rfl

/-! ## the longest text at the front -/

/-- no character is written as the beginning of another -/
theorem eq_of_utf8EncodeChar_prefix {c d : Char} {bytes : List UInt8}
    (hc : String.utf8EncodeChar c <+: bytes) (hd : String.utf8EncodeChar d <+: bytes) : c = d := by
  cases bytes with
  | nil => exact absurd (List.prefix_nil.mp hc) String.utf8EncodeChar_ne_nil
  | cons lead rest =>
    have hfound := firstChar?_eq_some_iff.mpr hc
    rw [firstChar?_eq_some_iff.mpr hd] at hfound
    exact (Option.some.inj hfound).symm

/-- a text at the front of some bytes does not reach beyond a fault -/
theorem Fault.prefix_of_encode_prefix (h : Fault bad) {cs ds : List Char}
    (hp : encode ds <+: encode cs ++ bad) : ds <+: cs := by
  induction cs generalizing ds with
  | nil =>
    cases ds with
    | nil => exact List.prefix_refl _
    | cons d ds =>
      cases bad with
      | nil => cases h
      | cons lead rest => exact absurd ((List.prefix_append _ _).trans hp) (fault_iff.mp h d)
  | cons c cs ih =>
    cases ds with
    | nil => exact List.nil_prefix
    | cons d ds =>
      -- both characters are written at the front
      rw [encode_cons, encode_cons, List.append_assoc] at hp
      obtain rfl : d = c :=
        eq_of_utf8EncodeChar_prefix ((List.prefix_append _ _).trans hp) (List.prefix_append _ _)
      exact List.cons_prefix_cons.mpr ⟨rfl, ih ((List.prefix_append_right_inj _).mp hp)⟩

theorem Fault.isGreatest (h : Fault bad) (cs : List Char) :
    IsGreatest {n | n ≤ (encode cs ++ bad).length ∧
      ∃ s : String, encode s.toList = (encode cs ++ bad).take n} (encode cs).length := by
  constructor
  · refine ⟨?_, .ofList cs, ?_⟩
    · rw [List.length_append]
      omega
    · rw [String.toList_ofList, List.take_left]
  · rintro n ⟨hn, s, hs⟩
    have hp : encode s.toList <+: encode cs ++ bad := by
      rw [hs]
      exact List.take_prefix _ _
    obtain ⟨left, rfl⟩ := h.prefix_of_encode_prefix hp
    have hlength : (encode s.toList).length = n := by
      rw [hs, List.length_take_of_le hn]
    rw [encode_append, List.length_append]
    omega

end

end Text.Utf8

/-! ## programs -/

namespace Program
open Text.Utf8

theorem ofBytes_eq_ok_iff {bytes : List UInt8} {p : Program} :
    ofBytes bytes = .ok p ↔ ∃ s : String, p = .source s ∧ encode s.toList = bytes := by
  rw [ofBytes]
  cases hd : decode bytes with
  | ok text =>
    constructor
    · intro h
      cases h
      exact ⟨text, rfl, (decode_eq_ok_iff.mp hd).symm⟩
    · rintro ⟨s, rfl, hs⟩
      rw [decode_eq_ok_iff.mpr hs.symm] at hd
      cases hd
      rfl
  | error offset =>
    constructor
    · intro h
      cases h
    · rintro ⟨s, rfl, hs⟩
      rw [decode_eq_ok_iff.mpr hs.symm] at hd
      cases hd

theorem ofBytes_eq_error_iff {bytes : List UInt8} {d : BinaryData} :
    ofBytes bytes = .error d ↔ decode bytes = .error d.offset := by
  rw [ofBytes]
  cases decode bytes with
  | ok text =>
    constructor
    · intro h
      cases h
    · intro h
      cases h
  | error offset =>
    constructor
    · intro h
      cases h
      rfl
    · intro h
      cases h
      rfl

/-- **Bytes are accepted exactly if they are UTF-8, and refused at the first bad byte.**  They are
accepted if they are what some text is stored as, and the program is then this text.  Otherwise the
offset is the length of the longest text at their front, and what follows it is overlong, a surrogate,
beyond the last code point, stray or cut off. -/
theorem ofBytes_accepts_utf8 (bytes : List UInt8) :
    (∀ p, ofBytes bytes = .ok p ↔
      ∃ s : String, p = .source s ∧ s.toUTF8.data.toList = bytes) ∧
    (∀ d, ofBytes bytes = .error d ↔
      (¬∃ s : String, s.toUTF8.data.toList = bytes) ∧
      IsGreatest {n | n ≤ bytes.length ∧ ∃ s : String, s.toUTF8.data.toList = bytes.take n}
        d.offset) ∧
    ∀ d, ofBytes bytes = .error d ↔
      ∃ (s : String) (bad : List UInt8), Fault bad ∧ s.toUTF8.data.toList ++ bad = bytes ∧
        s.toUTF8.data.toList.length = d.offset := by
  simp only [← encode_toList, ofBytes_eq_error_iff]
  have hgreatest : ∀ n, decode bytes = .error n →
      IsGreatest {n | n ≤ bytes.length ∧ ∃ s : String, encode s.toList = bytes.take n} n := by
    intro n h
    obtain ⟨s, bad, hbad, rfl, rfl⟩ := decode_eq_error_iff.mp h
    exact hbad.isGreatest s.toList
  refine ⟨fun p => ofBytes_eq_ok_iff, fun d => ⟨fun h => ⟨?_, hgreatest _ h⟩, ?_⟩,
    fun d => decode_eq_error_iff⟩
  · rintro ⟨s, hs⟩
    rw [decode_eq_ok_iff.mpr hs.symm] at h
    cases h
  · -- what is no text is refused somewhere, and only one length is the greatest
    rintro ⟨hnone, hd⟩
    cases h : decode bytes with
    | ok s => exact absurd ⟨s, (decode_eq_ok_iff.mp h).symm⟩ hnone
    | error n => rw [(hgreatest n h).unique hd]

/-- behind a character of two bytes, each kind of fault is told as the byte with number two -/
theorem ofBytes_accepts_utf8_each_fault :
    (∀ bad ∈ ([[0xC1, 0xBF], [0xE0, 0x9F, 0xBF], [0xF0, 0x8F, 0xBF, 0xBF], [0xED, 0xA0, 0x80],
        [0xF4, 0x90, 0x80, 0x80], [0xFF], [0xBF], [0xE2, 0x82], [0xE2, 0x82, 0x41]] :
        List (List UInt8)),
      ofBytes ("é".toUTF8.data.toList ++ bad) = .error ⟨2⟩) ∧
    BinaryData.message ⟨2⟩ =
      "expected program text or a list of lines, got binary data (invalid UTF-8 at byte 2)" := by
  have hrefused : ∀ bad : List UInt8, Fault bad →
      ofBytes ("é".toUTF8.data.toList ++ bad) = .error ⟨2⟩ := fun bad hbad =>
    ((ofBytes_accepts_utf8 ("é".toUTF8.data.toList ++ bad)).2.2 ⟨2⟩).mpr
      ⟨"é", bad, hbad, rfl, by decide⟩
  have hend : Fault (0xE2 :: ([0x82] ++ [])) := .cutOff (by decide) (by decide) (by simp)
  have hletter : Fault (0xE2 :: ([0x82] ++ [0x41])) :=
    .cutOff (by decide) (by decide) (by simp [IsInner])
  refine ⟨fun bad hbad => hrefused bad ?_, by decide⟩
  simp only [List.mem_cons, List.not_mem_nil, or_false] at hbad
  rcases hbad with rfl | rfl | rfl | rfl | rfl | rfl | rfl | rfl | rfl
  · exact .overlongTwo (Or.inr rfl) _
  · exact .overlongThree ⟨by decide, by decide⟩ (by decide) _
  · exact .overlongFour ⟨by decide, by decide⟩ (by decide) _
  · exact .surrogate ⟨by decide, by decide⟩ (by decide) _
  · exact .beyond ⟨by decide, by decide⟩ (by decide) _
  · exact .farBeyond (by decide) _
  · exact .stray ⟨by decide, by decide⟩ _
  · exact hend
  · exact hletter

end Program

end LineScript
