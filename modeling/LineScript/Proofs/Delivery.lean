import LineScript.Proofs.Encoding
import LineScript.Proofs.Layout
import LineScript.Shell.Session

/-!
# Lines of input

Input is bytes, and a session is asked lines.

* `Session.ReadAs`     a piece of the input that is read as a line;
* `Session.Delivers`   pieces of the input that are read as given lines, up to the first that quits;
* `Session.asked`      the lines in front of the first that quits.

Line feeds are found among the bytes and never in a line (`Session.Delivers.lineFeed_not_mem`), and the
carriage return of a line end is white space that is trimmed off (`Session.ReadAs.exists_trim`).  Any
lines without line feeds and backspaces can be delivered (`Session.delivers_unlines`).
-/

namespace LineScript

/-! ## trimming -/

namespace Text

theorem dropBlankEnd_append_blank (cs : List Char) {c : Char} (h : isBlank c) :
    dropBlankEnd (cs ++ [c]) = dropBlankEnd cs := by
  simp [dropBlankEnd, h]

theorem trimChars_append_blank (cs : List Char) {c : Char} (h : isBlank c) :
    trimChars (cs ++ [c]) = trimChars cs := by
  rw [trimChars, List.dropWhile_append]
  split
  · rename_i hnil
    rw [List.isEmpty_iff] at hnil
    rw [trimChars, hnil]
    simp [h]
  · exact dropBlankEnd_append_blank _ h

theorem trim_append_blank (s : String) {c : Char} (h : isBlank c) :
    trim (s ++ String.singleton c) = trim s := by
  rw [trim, String.toList_append, String.toList_singleton, trimChars_append_blank _ h, trim]

/-! ## what is typed -/

theorem dropBytes_suffix (n : Nat) (cs : List Char) : dropBytes n cs <:+ cs := by
  induction cs generalizing n with
  | nil => exact List.suffix_refl _
  | cons c cs ih =>
    rw [dropBytes]
    split
    · exact List.suffix_refl _
    · exact (ih _).trans (List.suffix_cons c cs)

theorem Draft.mem_kept_step {d : Draft} {cluster : List Char} {c : Char}
    (h : c ∈ (d.step cluster).kept) : c ∈ d.kept ∨ c ∈ cluster := by
  rw [step] at h
  split at h
  · left
    rw [takeBack] at h
    split at h
    · exact h
    · exact (dropBytes_suffix _ _).mem h
  · simp only [write, List.mem_append, List.mem_reverse] at h
    exact h.symm

theorem Draft.mem_kept_foldl {gs : List (List Char)} {d : Draft} {c : Char}
    (h : c ∈ (gs.foldl step d).kept) : c ∈ d.kept ∨ c ∈ gs.flatten := by
  induction gs generalizing d with
  | nil => exact Or.inl h
  | cons g gs ih =>
    rw [List.flatten_cons, List.mem_append]
    rcases ih h with h | h
    · exact (mem_kept_step h).imp_right Or.inl
    · exact Or.inr (Or.inr h)

/-- backspaces take characters away and put none in their place -/
theorem typed_subset (s : String) : (typed s).toList ⊆ s.toList := by
  intro c hc
  rw [typed, String.toList_ofList, typedChars, List.mem_reverse] at hc
  rcases Draft.mem_kept_foldl hc with hc | hc
  · cases hc
  · rwa [flatten_clusters] at hc

end Text

namespace Shell.Session

/-! ## pieces of the input -/

theorem lineFeed_not_mem_inputLines {bytes piece : List UInt8} (h : piece ∈ inputLines bytes) :
    0x0A ∉ piece := by
  have hpiece : piece ∈ bytes.splitOn 0x0A := by
    rw [inputLines] at h
    split at h
    · exact (List.dropLast_sublist _).mem h
    · exact h
  rw [List.splitOn_eq_splitOnP] at hpiece
  intro hmem
  exact absurd (Text.not_of_mem_splitOnP hpiece _ hmem) (by simp)

/-- a piece ends with the first line feed -/
theorem inputLines_append_lineFeed {piece : List UInt8} (h : 0x0A ∉ piece) (rest : List UInt8) :
    inputLines (piece ++ 0x0A :: rest) = piece :: inputLines rest := by
  obtain ⟨first, others, hrest⟩ := List.exists_cons_of_ne_nil (List.splitOn_ne_nil 0x0A rest)
  rw [inputLines, inputLines, List.splitOn_append_cons_self_of_not_mem h, hrest]
  simp only [List.getLast?_cons_cons, List.dropLast_cons_cons]
  split <;> rfl

/-! ## delivery -/

/-- a piece of the input is a line that was typed, perhaps with a carriage return at its end -/
def ReadAs (piece : List UInt8) (line : String) : Prop :=
  ∃ text, Text.Utf8.decode piece = .ok text ∧
    (Text.typed text = line ∨ Text.typed text = line ++ "\r")

/-- pieces of the input are delivered as lines, without their line ends; what comes behind the first
line that quits does not matter -/
inductive Delivers : List (List UInt8) → List String → Prop where
  | done : Delivers [] []
  | line {piece : List UInt8} {pieces : List (List UInt8)} {line : String} {lines : List String}
      (hl : ReadAs piece line) (hr : Delivers pieces lines) :
      Delivers (piece :: pieces) (line :: lines)
  | quit {piece : List UInt8} {line : String} (hl : ReadAs piece line)
      (hq : Text.trim line = quitWord) (pieces : List (List UInt8)) (lines : List String) :
      Delivers (piece :: pieces) (line :: lines)

/-- the lines in front of the first that quits -/
def asked (lines : List String) : List String :=
  lines.takeWhile fun line => Text.trim line != quitWord

theorem asked_nil : asked [] = [] := rfl

theorem asked_cons_of_quits {line : String} (h : Text.trim line = quitWord) (lines : List String) :
    asked (line :: lines) = [] := by
  rw [asked, List.takeWhile_cons_of_neg]
  simp [h]

theorem asked_cons {line : String} (h : Text.trim line ≠ quitWord) (lines : List String) :
    asked (line :: lines) = line :: asked lines := by
  rw [asked, List.takeWhile_cons_of_pos]
  · rfl
  · simpa using h

/-- what is read is the line but for white space at its end -/
theorem ReadAs.exists_trim {piece : List UInt8} {line : String} (h : ReadAs piece line) :
    ∃ text, Text.Utf8.decode piece = .ok text ∧ Text.trim (Text.typed text) = Text.trim line := by
  obtain ⟨text, hd, ht⟩ := h
  refine ⟨text, hd, ?_⟩
  rcases ht with ht | ht
  · rw [ht]
  · rw [ht]
    exact Text.trim_append_blank line (c := '\r') (by decide)

theorem ReadAs.lineFeed_not_mem {piece : List UInt8} {line : String} (h : ReadAs piece line)
    (hp : 0x0A ∉ piece) : '\n' ∉ line.toList := by
  obtain ⟨text, hd, ht⟩ := h
  intro hline
  have htyped : '\n' ∈ (Text.typed text).toList := by
    rcases ht with ht | ht
    · rwa [ht]
    · rw [ht, String.toList_append]
      exact List.mem_append_left _ hline
  have htext := Text.typed_subset text htyped
  rw [Text.Utf8.decode_eq_ok_iff.mp hd, Text.Utf8.lineFeed_mem_encode] at hp
  exact hp htext

theorem Delivers.lineFeed_not_mem {pieces : List (List UInt8)} {lines : List String}
    (h : Delivers pieces lines) (hp : ∀ piece ∈ pieces, 0x0A ∉ piece) :
    ∀ line ∈ asked lines, '\n' ∉ line.toList := by
  induction h with
  | done => simp [asked_nil]
  | @line piece pieces line lines hl hr ih =>
    obtain ⟨hpiece, hpieces⟩ := List.forall_mem_cons.mp hp
    by_cases hq : Text.trim line = quitWord
    · rw [asked_cons_of_quits hq]
      simp
    · rw [asked_cons hq]
      exact List.forall_mem_cons.mpr ⟨hl.lineFeed_not_mem hpiece, ih hpieces⟩
  | quit hl hq pieces lines =>
    rw [asked_cons_of_quits hq]
    simp

/-- lines without line feeds and backspaces can be delivered, with either line end -/
theorem delivers_unlines {lines : List String}
    (h : ∀ line ∈ lines, '\n' ∉ line.toList ∧ Text.backspace ∉ line.toList) {ending : String}
    (he : ending = "" ∨ ending = "\r") :
    Delivers (inputLines (Text.Utf8.encode (unlines (lines.map (· ++ ending))).toList)) lines := by
  induction lines with
  | nil => exact .done
  | cons line lines ih =>
    obtain ⟨⟨hfeed, hback⟩, hlines⟩ := List.forall_mem_cons.mp h
    have hend : '\n' ∉ ending.toList ∧ Text.backspace ∉ ending.toList := by
      rcases he with rfl | rfl <;> decide
    have htext : '\n' ∉ (line ++ ending).toList ∧ Text.backspace ∉ (line ++ ending).toList := by
      simp only [String.toList_append, List.mem_append, not_or]
      exact ⟨⟨hfeed, hend.1⟩, hback, hend.2⟩
    have hcons : unlines ((line :: lines).map (· ++ ending)) =
        (line ++ ending) ++ "\n" ++ unlines (lines.map (· ++ ending)) := String.join_cons
    have hbytes : Text.Utf8.encode (unlines ((line :: lines).map (· ++ ending))).toList =
        Text.Utf8.encode (line ++ ending).toList ++
          0x0A :: Text.Utf8.encode (unlines (lines.map (· ++ ending))).toList := by
      rw [hcons, String.toList_append, String.toList_append, List.append_assoc,
        Text.Utf8.encode_append, Text.Utf8.encode_append]
      rfl
    have hpiece : 0x0A ∉ Text.Utf8.encode (line ++ ending).toList := fun hmem =>
      htext.1 (Text.Utf8.lineFeed_mem_encode.mp hmem)
    rw [hbytes, inputLines_append_lineFeed hpiece]
    refine .line ⟨line ++ ending, Text.Utf8.decode_eq_ok_iff.mpr rfl, ?_⟩ (ih hlines)
    rw [Text.typed_eq_self htext.2]
    rcases he with rfl | rfl
    · exact Or.inl (String.append_empty)
    · exact Or.inr rfl

end Shell.Session

end LineScript
