import Mathlib.Data.List.Forall2
import LineScript.Interpreter
import LineScript.Proofs.Spacing

/-!
# The layout of a program

What a program logs depends on the words of its lines and on nothing else: not on the white space
between them, nor on the lines that are blank or comments, nor on whether the lines were given one by
one or as a text.

* `Text.LaidOut`          some words written out, with white space between and around them;
* `Text.laidOut_iff`      these are the words of the text and of no other;
* `Idle`                  a line that is blank or a comment, read off its characters;
* `Program.wordLines`     the words of the lines that do something;
* `Program.words_effective`   these are the words of the effective lines of the program;
* `Relaid`                lines that differ in white space and in idle lines only.

`Interpreter.evaluate_reads_words` puts these together.
-/

namespace LineScript

namespace Text

/-! ## words and white space -/

section
variable {gap w rest : List Char}

theorem wordChars_cons_blank {c : Char} (h : isBlank c) (cs : List Char) :
    wordChars (c :: cs) = wordChars cs := by
  have hcut := wordChars_append_cons [] cs h
  rwa [wordChars_nil, List.nil_append, List.nil_append] at hcut

theorem wordChars_blank_append (h : ∀ c ∈ gap, isBlank c) (cs : List Char) :
    wordChars (gap ++ cs) = wordChars cs := by
  induction gap with
  | nil => rfl
  | cons c gap ih =>
    obtain ⟨hc, hgap⟩ := List.forall_mem_cons.mp h
    rw [List.cons_append, wordChars_cons_blank hc, ih hgap]

theorem wordChars_eq_nil (h : ∀ c ∈ gap, isBlank c) : wordChars gap = [] := by
  have hcut := wordChars_blank_append h []
  rwa [List.append_nil, wordChars_nil] at hcut

theorem wordChars_append_blank (h : ∀ c ∈ gap, isBlank c) (cs : List Char) :
    wordChars (cs ++ gap) = wordChars cs := by
  cases gap with
  | nil => rw [List.append_nil]
  | cons c gap =>
    obtain ⟨hc, hgap⟩ := List.forall_mem_cons.mp h
    rw [wordChars_append_cons cs gap hc, wordChars_eq_nil hgap, List.append_nil]

/-- a run of other characters that white space ends is the first word -/
theorem wordChars_word_append (hne : w ≠ []) (hw : ∀ c ∈ w, isBlank c = false)
    (hrest : ∀ c ∈ rest.head?, isBlank c) : wordChars (w ++ rest) = w :: wordChars rest := by
  cases rest with
  | nil => rw [List.append_nil, wordChars_nil, wordChars_eq_singleton hne hw]
  | cons c rest =>
    have hc : isBlank c := hrest c rfl
    rw [wordChars_append_cons w rest hc, wordChars_eq_singleton hne hw, wordChars_cons_blank hc]
    rfl

end

/-! ## words laid out -/

/-- some words written one behind the other, with white space between any two of them and anywhere
around them -/
inductive LaidOut : List (List Char) → List Char → Prop where
  | blank {gap : List Char} (hgap : ∀ c ∈ gap, isBlank c) : LaidOut [] gap
  | word {tokens : List (List Char)} {gap w rest : List Char} (hgap : ∀ c ∈ gap, isBlank c)
      (hne : w ≠ []) (hw : ∀ c ∈ w, isBlank c = false) (hrest : ∀ c ∈ rest.head?, isBlank c)
      (h : LaidOut tokens rest) : LaidOut (w :: tokens) (gap ++ (w ++ rest))

theorem LaidOut.wordChars_eq {tokens : List (List Char)} {cs : List Char} (h : LaidOut tokens cs) :
    wordChars cs = tokens := by
  induction h with
  | blank hgap => exact wordChars_eq_nil hgap
  | word hgap hne hw hrest h ih =>
    rw [wordChars_blank_append hgap, wordChars_word_append hne hw hrest, ih]

theorem LaidOut.cons_blank {tokens : List (List Char)} {cs : List Char} (h : LaidOut tokens cs)
    {c : Char} (hc : isBlank c) : LaidOut tokens (c :: cs) := by
  cases h with
  | blank hgap => exact .blank (List.forall_mem_cons.mpr ⟨hc, hgap⟩)
  | @word tokens gap w rest hgap hne hw hrest h =>
    have hgap' : ∀ d ∈ c :: gap, isBlank d := List.forall_mem_cons.mpr ⟨hc, hgap⟩
    exact .word hgap' hne hw hrest h

/-- a word at the front, which white space ends -/
theorem LaidOut.word_append {tokens : List (List Char)} {w rest : List Char} (h : LaidOut tokens rest)
    (hne : w ≠ []) (hw : ∀ c ∈ w, isBlank c = false) (hrest : ∀ c ∈ rest.head?, isBlank c) :
    LaidOut (w :: tokens) (w ++ rest) := by
  have hgap : ∀ c ∈ ([] : List Char), isBlank c := by simp
  exact .word hgap hne hw hrest h

theorem exists_laidOut (cs : List Char) : ∃ tokens, LaidOut tokens cs := by
  induction cs with
  | nil => exact ⟨[], .blank (by simp)⟩
  | cons c cs ih =>
    obtain ⟨tokens, h⟩ := ih
    by_cases hc : isBlank c
    · exact ⟨tokens, h.cons_blank hc⟩
    have hletter : isBlank c = false := Bool.eq_false_iff.mpr hc
    -- the character is a word of its own unless a word begins right behind it
    by_cases hhead : ∀ d ∈ cs.head?, isBlank d
    · exact ⟨[c] :: tokens, h.word_append (by simp) (by simpa) hhead⟩
    · cases h with
      | blank hgap => exact absurd (fun d hd => hgap d (List.mem_of_mem_head? hd)) hhead
      | @word tokens gap w rest hgap hne hw hrest h =>
        cases gap with
        | nil =>
          have hlonger : ∀ e ∈ c :: w, isBlank e = false :=
            List.forall_mem_cons.mpr ⟨hletter, hw⟩
          exact ⟨(c :: w) :: tokens, h.word_append (by simp) hlonger hrest⟩
        | cons d gap =>
          refine absurd (fun e he => ?_) hhead
          cases he
          exact hgap d List.mem_cons_self

/-- every text is laid out from its words and from no others -/
theorem laidOut_iff {tokens : List (List Char)} {cs : List Char} :
    LaidOut tokens cs ↔ wordChars cs = tokens := by
  constructor
  · exact LaidOut.wordChars_eq
  · intro h
    obtain ⟨others, hothers⟩ := exists_laidOut cs
    rwa [← h, hothers.wordChars_eq]

section
variable {cs : List Char} (hhead : ∀ c ∈ cs.head?, isBlank c = false)
include hhead

theorem eq_nil_of_wordChars (h : wordChars cs = []) : cs = [] := by
  cases laidOut_iff.mpr h with
  | blank hgap =>
    cases cs with
    | nil => rfl
    | cons c cs =>
      have hc := hhead c rfl
      rw [hgap c List.mem_cons_self] at hc
      cases hc

/-- without white space in front a text begins with the first of its words -/
theorem exists_eq_append_of_wordChars {w : List Char} {tokens : List (List Char)}
    (h : wordChars cs = w :: tokens) :
    ∃ rest, cs = w ++ rest ∧ w ≠ [] ∧ ∀ c ∈ rest.head?, isBlank c := by
  cases laidOut_iff.mpr h with
  | @word tokens gap w rest hgap hne hw hrest hlaid =>
    cases gap with
    | nil => exact ⟨rest, rfl, hne, hrest⟩
    | cons c gap =>
      have hc := hhead c rfl
      rw [hgap c List.mem_cons_self] at hc
      cases hc

end

/-! ## trimming -/

theorem dropBlankEnd_prefix (cs : List Char) : dropBlankEnd cs <+: cs := by
  have hsuffix := (List.dropWhile_suffix isBlank (l := cs.reverse)).reverse
  rwa [List.reverse_reverse] at hsuffix

/-- a trimmed text begins with no white space -/
theorem head?_trimChars {cs : List Char} {c : Char} (h : c ∈ (trimChars cs).head?) :
    isBlank c = false := by
  have hfirst : (cs.dropWhile isBlank).head? = some c := by
    obtain ⟨rest, hrest⟩ := dropBlankEnd_prefix (cs.dropWhile isBlank)
    rw [← hrest, List.head?_append]
    exact (congrArg (Option.or · _) (Option.mem_def.mp h)).trans rfl
  have hnot := List.head?_dropWhile_not isBlank cs
  rw [hfirst] at hnot
  exact hnot

/-- and it ends with none -/
theorem getLast?_trimChars {cs : List Char} {c : Char} (h : c ∈ (trimChars cs).getLast?) :
    isBlank c = false := by
  rw [trimChars, dropBlankEnd, List.getLast?_reverse] at h
  have hnot := List.head?_dropWhile_not isBlank (cs.dropWhile isBlank).reverse
  rw [h] at hnot
  exact hnot

/-- trimming a second time changes nothing -/
theorem trim_trim (s : String) : trim (trim s) = trim s := by
  have htrim : trimChars (trimChars s.toList) = trimChars s.toList :=
    trimChars_eq_self (fun c => head?_trimChars) (fun c => getLast?_trimChars)
  rw [trim, toList_trim, htrim, trim]

theorem wordChars_dropBlankEnd (cs : List Char) : wordChars (dropBlankEnd cs) = wordChars cs := by
  have hsplit : dropBlankEnd cs ++ (cs.reverse.takeWhile isBlank).reverse = cs := by
    unfold dropBlankEnd
    rw [← List.reverse_append, List.takeWhile_append_dropWhile, List.reverse_reverse]
  have hgap : ∀ c ∈ (cs.reverse.takeWhile isBlank).reverse, isBlank c := by
    intro c hc
    exact List.all_eq_true.mp List.all_takeWhile c (List.mem_reverse.mp hc)
  have hwords := wordChars_append_blank hgap (dropBlankEnd cs)
  rw [hsplit] at hwords
  exact hwords.symm

theorem wordChars_trimChars (cs : List Char) : wordChars (trimChars cs) = wordChars cs := by
  have hgap : ∀ c ∈ cs.takeWhile isBlank, isBlank c :=
    fun c hc => List.all_eq_true.mp List.all_takeWhile c hc
  have hwords := wordChars_blank_append hgap (cs.dropWhile isBlank)
  rw [List.takeWhile_append_dropWhile] at hwords
  rw [trimChars, wordChars_dropBlankEnd, hwords]

/-- trimming a line leaves its words as they are -/
theorem words_trim (s : String) : words (trim s) = words s := by
  unfold words
  rw [toList_trim, wordChars_trimChars]

end Text

/-! ## comments -/

/-- a mark without white space stands at the front of a line if it stands at the front of its first
word -/
theorem prefix_append_iff {mark w rest : List Char} (hmark : ∀ c ∈ mark, Text.isBlank c = false)
    (hrest : ∀ c ∈ rest.head?, Text.isBlank c) : mark <+: w ++ rest ↔ mark <+: w := by
  induction mark generalizing w with
  | nil => simp
  | cons c mark ih =>
    obtain ⟨hc, hmark⟩ := List.forall_mem_cons.mp hmark
    cases w with
    | nil =>
      rw [List.nil_append, List.prefix_nil]
      constructor
      · rintro ⟨more, rfl⟩
        have hblank : Text.isBlank c := hrest c rfl
        rw [hc] at hblank
        cases hblank
      · intro h
        cases h
    | cons d w =>
      rw [List.cons_append, List.cons_prefix_cons, List.cons_prefix_cons, ih hmark]

theorem isComment_iff {cs : List Char} :
    isComment (String.ofList cs) ↔ ∃ mark ∈ commentMarks, mark.toList <+: cs := by
  simp [isComment]

theorem solid_of_mem_commentMarks {mark : String} (h : mark ∈ commentMarks) : Text.Solid mark := by
  have hall : ∀ m ∈ commentMarks, Text.Solid m := by decide
  exact hall mark h

theorem isComment_append {w rest : List Char} (hrest : ∀ c ∈ rest.head?, Text.isBlank c) :
    isComment (String.ofList (w ++ rest)) = isComment (String.ofList w) := by
  rw [Bool.eq_iff_iff, isComment_iff, isComment_iff]
  refine exists_congr fun mark => and_congr_right fun hmark => ?_
  exact prefix_append_iff (solid_of_mem_commentMarks hmark) hrest

/-- the words of a line do something: there are some, and the first begins no comment -/
def areEffective : List String → Bool
  | [] => false
  | word :: _ => !isComment word

/-- whether a line does something can be told from its words -/
theorem isEffective_trim (line : String) :
    isEffective (Text.trim line) = areEffective (Text.words line) := by
  have hhead : ∀ c ∈ (Text.trimChars line.toList).head?, Text.isBlank c = false :=
    fun c => Text.head?_trimChars
  rw [← Text.words_trim line]
  unfold Text.words
  rw [Text.toList_trim, Text.trim]
  cases h : Text.wordChars (Text.trimChars line.toList) with
  | nil =>
    rw [Text.eq_nil_of_wordChars hhead h]
    decide
  | cons w tokens =>
    obtain ⟨rest, htrim, hne, hrest⟩ := Text.exists_eq_append_of_wordChars hhead h
    rw [htrim, List.map_cons, areEffective, isEffective, isComment_append hrest]
    simp [hne]

/-- a line that does nothing: only white space, or a comment behind white space -/
def Idle (line : String) : Prop :=
  (∀ c ∈ line.toList, Text.isBlank c) ∨
  ∃ gap rest, ∃ mark ∈ commentMarks, (∀ c ∈ gap, Text.isBlank c) ∧
    line.toList = gap ++ (mark.toList ++ rest)

theorem head?_commentMark {mark : String} (h : mark ∈ commentMarks) {rest : List Char} :
    ∀ c ∈ (mark.toList ++ rest).head?, Text.isBlank c = false := by
  have hne : mark.toList ≠ [] := by
    have hall : ∀ m ∈ commentMarks, m.toList ≠ [] := by decide
    exact hall mark h
  intro c hc
  rw [List.head?_append_of_ne_nil _ hne] at hc
  exact solid_of_mem_commentMarks h c (List.mem_of_mem_head? hc)

/-- the idle lines are those whose words do nothing -/
theorem idle_iff {line : String} : Idle line ↔ areEffective (Text.words line) = false := by
  unfold Text.words
  constructor
  · rintro (hblank | ⟨gap, rest, mark, hmark, hgap, hline⟩)
    · rw [Text.wordChars_eq_nil hblank]
      rfl
    · rw [hline, Text.wordChars_blank_append hgap]
      cases h : Text.wordChars (mark.toList ++ rest) with
      | nil => rfl
      | cons w tokens =>
        obtain ⟨more, hsplit, -, hmore⟩ :=
          Text.exists_eq_append_of_wordChars (head?_commentMark hmark) h
        have hfront : mark.toList <+: w := by
          rw [← prefix_append_iff (solid_of_mem_commentMarks hmark) hmore, ← hsplit]
          exact List.prefix_append _ _
        rw [List.map_cons, areEffective, isComment_iff.mpr ⟨mark, hmark, hfront⟩]
        rfl
  · intro h
    generalize hw : Text.wordChars line.toList = tokens at h
    have hlaid := Text.laidOut_iff.mpr hw
    unfold Idle
    generalize line.toList = cs at hlaid ⊢
    cases hlaid with
    | blank hgap => exact Or.inl hgap
    | @word tokens gap w rest hgap hne hw hrest hlaid =>
      rw [List.map_cons, areEffective, Bool.not_eq_false'] at h
      obtain ⟨mark, hmark, more, rfl⟩ := isComment_iff.mp h
      exact Or.inr ⟨gap, more ++ rest, mark, hmark, hgap, by rw [List.append_assoc]⟩

/-! ## programs -/

namespace Program

/-- the words of the lines that do something -/
def wordLines (p : Program) : List (List String) :=
  (p.rawLines.map Text.words).filter areEffective

end Program

theorem words_effectiveFrom (first : Nat) (lines : List String) :
    (effectiveFrom first lines).map (fun numbered => Text.words numbered.2) =
      (lines.map Text.words).filter areEffective := by
  induction lines generalizing first with
  | nil => rfl
  | cons line lines ih =>
    rw [effectiveFrom_cons, isEffective_trim, List.map_append, ih, List.map_cons,
      List.filter_cons]
    by_cases h : areEffective (Text.words line)
    · rw [if_pos h, if_pos h, List.map_singleton, Text.words_trim]
      rfl
    · rw [if_neg h, if_neg h]
      rfl

theorem Program.words_effective (p : Program) :
    p.effective.map (fun numbered => Text.words numbered.2) = p.wordLines :=
  words_effectiveFrom 1 p.rawLines

/-- lines that are the same but for idle lines and the white space around words -/
inductive Relaid : List String → List String → Prop where
  | nil : Relaid [] []
  | line {a b : String} {as bs : List String} {tokens : List (List Char)}
      (ha : Text.LaidOut tokens a.toList) (hb : Text.LaidOut tokens b.toList) (h : Relaid as bs) :
      Relaid (a :: as) (b :: bs)
  | idleLeft {a : String} {as bs : List String} (ha : Idle a) (h : Relaid as bs) :
      Relaid (a :: as) bs
  | idleRight {b : String} {as bs : List String} (hb : Idle b) (h : Relaid as bs) :
      Relaid as (b :: bs)

theorem Relaid.words_eq {as bs : List String} (h : Relaid as bs) :
    (as.map Text.words).filter areEffective = (bs.map Text.words).filter areEffective := by
  induction h with
  | nil => rfl
  | line ha hb h ih =>
    rw [List.map_cons, List.map_cons, List.filter_cons, List.filter_cons, ih, Text.words,
      Text.words, ha.wordChars_eq, hb.wordChars_eq]
  | idleLeft ha h ih =>
    rw [List.map_cons, List.filter_cons, idle_iff.mp ha, ih]
    rfl
  | idleRight hb h ih =>
    rw [List.map_cons, List.filter_cons, idle_iff.mp hb, ih]
    rfl

/-! ## a list of lines as a text -/

namespace Text

/-- lines that are joined with line feeds, and perhaps more white space in front of each, keep their
words -/
theorem map_words_lines_intercalate {ending : String} (hblank : ∀ c ∈ ending.toList, isBlank c)
    (hfeed : '\n' ∉ ending.toList) {ls : List String} (h : ∀ s ∈ ls, '\n' ∉ s.toList)
    (hne : ls ≠ []) :
    (lines ((ending ++ "\n").intercalate ls)).map words = ls.map words := by
  induction ls with
  | nil => exact absurd rfl hne
  | cons s ls ih =>
    obtain ⟨hs, hls⟩ := List.forall_mem_cons.mp h
    cases ls with
    | nil => rw [String.intercalate_singleton, lines_eq_singleton hs]
    | cons t ls =>
      have hline : '\n' ∉ (s ++ ending).toList := by
        rw [String.toList_append, List.mem_append]
        exact fun hmem => hmem.elim hs hfeed
      have hwords : words (s ++ ending) = words s := by
        unfold words
        rw [String.toList_append, wordChars_append_blank hblank]
      rw [String.intercalate_cons_cons, ← String.append_assoc, lines_append_lineFeed hline,
        List.map_cons, hwords, ih hls (by simp)]
      rfl

end Text

/-- the lines of a list may as well be joined to a text -/
theorem Program.wordLines_source (ending : String) (hblank : ∀ c ∈ ending.toList, Text.isBlank c)
    (hfeed : '\n' ∉ ending.toList) {ls : List String} (h : ∀ s ∈ ls, '\n' ∉ s.toList) :
    (Program.source ((ending ++ "\n").intercalate ls)).wordLines = (Program.lines ls).wordLines := by
  unfold Program.wordLines
  simp only [Program.rawLines]
  by_cases hne : ls = []
  · rw [hne, String.intercalate_nil]
    decide
  · rw [Text.map_words_lines_intercalate hblank hfeed h hne]

/-! ## runs -/

namespace Interpreter

/-- runs lines, given as their words, up to the first that stops -/
def runWordLines (i : Interpreter) : List (List String) → List LineRun
  | [] => []
  | words :: more =>
    let ran := i.runWords words
    ran :: if ran.reply.stops then [] else i.runWordLines more

variable (i : Interpreter)

/-- but for the numbers of the lines a run is one of their words -/
theorem map_snd_runLines (lines : List (Nat × String)) :
    (i.runLines lines).map Prod.snd =
      i.runWordLines (lines.map fun numbered => Text.words numbered.2) := by
  induction lines with
  | nil => rfl
  | cons numbered more ih =>
    obtain ⟨n, line⟩ := numbered
    rw [List.map_cons, runWordLines]
    show _ = i.runLine line :: if (i.runLine line).reply.stops then [] else _
    by_cases hs : (i.runLine line).reply.stops
    · rw [runLines_of_stops hs, if_pos hs]
      rfl
    · rw [runLines_of_goes_on hs, if_neg hs, List.map_cons, ih]

theorem map_snd_run (p : Program) : (i.run p).lines.map Prod.snd = i.runWordLines p.wordLines := by
  rw [run, map_snd_runLines, p.words_effective]

theorem evaluate_eq_of_wordLines {p q : Program} (h : p.wordLines = q.wordLines) :
    i.evaluate p = i.evaluate q := by
  have hlog : ∀ r : Run, r.log = (r.lines.map Prod.snd).flatMap LineRun.entries := by
    intro r
    rw [List.flatMap_map]
    rfl
  rw [evaluate, evaluate, hlog, hlog, map_snd_run, map_snd_run, h]

/-- **The log depends on the words of the effective lines and on nothing else.**  Programs with the
same words log the same.  So a list of lines without line feeds logs what the text logs that joins
them, with line feeds or with carriage returns and line feeds; and it makes no difference to a program
if the white space around its words is changed and blank lines and comments are put in or left out. -/
theorem evaluate_reads_words :
    (∀ p q : Program, p.wordLines = q.wordLines → i.evaluate p = i.evaluate q) ∧
    (∀ ls : List String, (∀ s ∈ ls, '\n' ∉ s.toList) →
      i.evaluate (.source ("\n".intercalate ls)) = i.evaluate (.lines ls) ∧
      i.evaluate (.source ("\r\n".intercalate ls)) = i.evaluate (.lines ls)) ∧
    ∀ p q : Program, Relaid p.rawLines q.rawLines → i.evaluate p = i.evaluate q := by
  refine ⟨fun p q => i.evaluate_eq_of_wordLines, fun ls h => ⟨?_, ?_⟩, fun p q h => ?_⟩
  · have hsource := Program.wordLines_source "" (by simp) (by decide) h
    exact i.evaluate_eq_of_wordLines hsource
  · have hreturn : ∀ c ∈ "\r".toList, Text.isBlank c := List.forall_mem_singleton.mpr (by decide)
    have hsource := Program.wordLines_source "\r" hreturn (by decide) h
    exact i.evaluate_eq_of_wordLines hsource
  · exact i.evaluate_eq_of_wordLines h.words_eq

/-- white space of all kinds, a comment behind some of it and a stray carriage return: the text and the
list have the words of two plain lines -/
theorem evaluate_reads_words_odd_blanks :
    let i : Interpreter := .default
    let ls := ["print\u2028a\u00a0_LANG", "\u3000-- note", "", "stop\u0085x\x0by\r"]
    let plain := ["print a _LANG", "stop x y"]
    (Program.lines ls).wordLines = (Program.source "print a _LANG\nstop x y").wordLines ∧
    Relaid ls plain ∧
    i.evaluate (.lines ls) = [⟨.info, "a rust"⟩, ⟨.halt, "x y"⟩] ∧
    i.evaluate (.source "print a _LANG\nstop x y") = i.evaluate (.lines ls) ∧
    i.evaluate (.source ("\r\n".intercalate ls)) = i.evaluate (.lines ls) ∧
    i.evaluate (.lines plain) = i.evaluate (.lines ls) := by
  intro i ls plain
  obtain ⟨hwords, hjoin, hrelaid⟩ := i.evaluate_reads_words
  have hsame : (Program.lines ls).wordLines =
      (Program.source "print a _LANG\nstop x y").wordLines := by
    decide +kernel
  have hgap : ∀ c ∈ ['\u3000'], Text.isBlank c := List.forall_mem_singleton.mpr (by decide)
  have hmark : Idle "\u3000-- note" :=
    Or.inr ⟨['\u3000'], " note".toList, "--", by decide, hgap, by decide⟩
  have hempty : Idle "" := Or.inl (by simp)
  have hprint : Text.LaidOut (["print", "a", "_LANG"].map String.toList)
      "print\u2028a\u00a0_LANG".toList := Text.laidOut_iff.mpr (by decide +kernel)
  have hprint' : Text.LaidOut (["print", "a", "_LANG"].map String.toList)
      "print a _LANG".toList := Text.laidOut_iff.mpr (by decide +kernel)
  have hstop : Text.LaidOut (["stop", "x", "y"].map String.toList)
      "stop\u0085x\x0by\r".toList := Text.laidOut_iff.mpr (by decide +kernel)
  have hstop' : Text.LaidOut (["stop", "x", "y"].map String.toList) "stop x y".toList :=
    Text.laidOut_iff.mpr (by decide +kernel)
  have hrel : Relaid ls plain :=
    .line hprint hprint' (.idleLeft hmark (.idleLeft hempty (.line hstop hstop' .nil)))
  exact ⟨hsame, hrel, by decide +kernel, (hwords _ _ hsame).symm, (hjoin ls (by decide)).2,
    (hrelaid (.lines ls) (.lines plain) hrel).symm⟩

end Interpreter

end LineScript
