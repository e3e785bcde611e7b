import LineScript.Proofs.Sources

/-!
# Lines of a text in the arguments

A text in the arguments ends a line with a line feed or with the two characters `\n`, and each place
may have it its own way.  A line may end with a backslash or begin with an `n`: the two characters are
only found where they were put.

* `Text.Break`              what stands between two lines;
* `Text.withBreaks`         lines with a break in front of each but the first;
* `Text.scanEscapes`        the escapes as they are found from the left, one behind the other;
* `Text.breakEscapesChars_eq_scan`   these are the ones that become line feeds;
* `Text.lines_withBreaks`   lines with any breaks between them are found again.

Every text is such lines with breaks (`Text.exists_withBreaks`), and `Shell.breaks_either_way` says what
it does.
-/

namespace LineScript

namespace Text

/-! ## lines and breaks -/

inductive Break where
  | feed
  | escape
deriving DecidableEq, Repr

def Break.text : Break → String
  | .feed => "\n"
  | .escape => "\\n"

/-- lines one behind the other, each but the first behind a break -/
def withBreaks (first : String) : List (Break × String) → String
  | [] => first
  | (b, line) :: more => first ++ b.text ++ withBreaks line more

/-- a line that holds no break -/
def Unbroken (line : String) : Prop :=
  '\n' ∉ line.toList ∧ ¬['\\', 'n'] <:+: line.toList

instance (line : String) : Decidable (Unbroken line) :=
  inferInstanceAs (Decidable (_ ∧ _))

theorem Unbroken.cons {line : String} (h : Unbroken line) {c : Char} (hc : c ≠ '\n')
    (hno : ¬['\\', 'n'] <+: c :: line.toList) : Unbroken (String.ofList [c] ++ line) := by
  have hchars : (String.ofList [c] ++ line).toList = c :: line.toList := by simp
  rw [Unbroken, hchars, List.infix_cons_iff, List.mem_cons]
  exact ⟨fun hmem => hmem.elim hc.symm h.1, fun hin => hin.elim hno h.2⟩

theorem withBreaks_nil (first : String) : withBreaks first [] = first := rfl

theorem withBreaks_cons (first : String) (b : Break) (line : String)
    (more : List (Break × String)) :
    withBreaks first ((b, line) :: more) = first ++ b.text ++ withBreaks line more := rfl

theorem prefix_withBreaks (first : String) (more : List (Break × String)) :
    first.toList <+: (withBreaks first more).toList := by
  cases more with
  | nil => exact List.prefix_refl _
  | cons next more =>
    obtain ⟨b, line⟩ := next
    rw [withBreaks_cons, String.append_assoc, String.toList_append]
    exact List.prefix_append _ _

theorem withBreaks_append (a first : String) (more : List (Break × String)) :
    withBreaks (a ++ first) more = a ++ withBreaks first more := by
  cases more with
  | nil => rfl
  | cons next more =>
    obtain ⟨b, line⟩ := next
    rw [withBreaks_cons, withBreaks_cons, String.append_assoc, String.append_assoc,
      String.append_assoc]

/-! ## escapes from the left -/

/-- line feeds for the escapes that are found from the left; behind one the search goes on -/
def scanEscapes : List Char → List Char
  | '\\' :: 'n' :: cs => '\n' :: scanEscapes cs
  | c :: cs => c :: scanEscapes cs
  | [] => []

/-- what has been read begins with an `n` only if the text does -/
theorem prefix_of_scanEscapes {cs : List Char} (h : ['n'] <+: scanEscapes cs) : ['n'] <+: cs := by
  fun_cases scanEscapes cs with
  | case1 cs =>
    rw [scanEscapes, List.cons_prefix_cons] at h
    exact absurd h.1 (by decide)
  | case2 c cs hno =>
    rw [scanEscapes.eq_2 c cs hno, List.cons_prefix_cons] at h
    exact List.cons_prefix_cons.mpr ⟨h.1, List.nil_prefix⟩
  | case3 => exact h

/-- it does not matter from which end the escapes are sought -/
theorem breakEscapesChars_eq_scan (cs : List Char) : breakEscapesChars cs = scanEscapes cs := by
  fun_induction scanEscapes cs with
  | case1 cs ih => rw [breakEscapesChars_escape, ih]
  | case2 c cs hno ih =>
    show readEscape c (breakEscapesChars cs) = c :: scanEscapes cs
    rw [ih]
    apply readEscape_of_not_prefix
    intro hpre
    rw [List.cons_prefix_cons] at hpre
    obtain ⟨rest, hrest⟩ := prefix_of_scanEscapes hpre.2
    exact hno rest hpre.1.symm hrest.symm
  | case3 => rfl

/-! ## finding the lines again -/

/-- no escape begins in an unbroken line in front of a line feed -/
theorem foldr_readEscape {cs : List Char} (h : ¬['\\', 'n'] <:+: cs) (rest : List Char) :
    cs.foldr readEscape ('\n' :: rest) = cs ++ '\n' :: rest := by
  induction cs with
  | nil => rfl
  | cons c cs ih =>
    rw [List.foldr_cons, ih fun hin => h (List.infix_cons hin), List.cons_append]
    apply readEscape_of_not_prefix
    intro hpre
    obtain ⟨hc, hn⟩ := List.cons_prefix_cons.mp hpre
    cases cs with
    | nil => exact absurd (List.cons_prefix_cons.mp hn).1 (by decide)
    | cons d cs =>
      have hd : 'n' = d := (List.cons_prefix_cons.mp hn).1
      apply h
      rw [← hc, ← hd]
      exact (List.prefix_append ['\\', 'n'] cs).isInfix

theorem breakEscapes_break {line : String} (h : Unbroken line) (b : Break) (s : String) :
    breakEscapes (line ++ b.text ++ s) = line ++ "\n" ++ breakEscapes s := by
  have hbreak : (b.text.toList ++ s.toList).foldr readEscape [] =
      '\n' :: breakEscapesChars s.toList := by
    cases b with
    | feed => exact breakEscapesChars_cons (by decide) s.toList
    | escape => exact breakEscapesChars_escape s.toList
  apply String.toList_inj.mp
  simp only [breakEscapes, breakEscapesChars, String.toList_ofList, String.toList_append,
    List.append_assoc]
  rw [List.foldr_append, hbreak, foldr_readEscape h.2]
  rfl

/-- lines without breaks are found again, whatever breaks are put between them -/
theorem lines_withBreaks {first : String} {more : List (Break × String)}
    (h : ∀ line ∈ first :: more.map Prod.snd, Unbroken line) :
    lines (breakEscapes (withBreaks first more)) = first :: more.map Prod.snd := by
  induction more generalizing first with
  | nil =>
    have hfirst : Unbroken first := h first List.mem_cons_self
    rw [withBreaks_nil, breakEscapes_eq_self hfirst.2, lines_eq_singleton hfirst.1]
    rfl
  | cons next more ih =>
    obtain ⟨b, line⟩ := next
    obtain ⟨hfirst, hmore⟩ := List.forall_mem_cons.mp h
    rw [withBreaks_cons, breakEscapes_break hfirst, lines_append_lineFeed hfirst.1, ih hmore]
    rfl

/-- every text is lines with breaks between them -/
theorem exists_withBreaks (s : String) :
    ∃ first more, withBreaks first more = s ∧
      ∀ line ∈ first :: more.map Prod.snd, Unbroken line := by
  suffices hchars : ∀ cs : List Char, ∃ first more, withBreaks first more = String.ofList cs ∧
      ∀ line ∈ first :: more.map Prod.snd, Unbroken line by
    have hs := hchars s.toList
    rwa [String.ofList_toList] at hs
  intro cs
  have hempty : Unbroken "" := by decide
  -- the text is read from the left: a break ends an empty line, and another character is put in
  -- front of the line that it stands on
  fun_induction scanEscapes cs with
  | case1 cs ih =>
    obtain ⟨first, more, htext, hlines⟩ := ih
    refine ⟨"", (.escape, first) :: more, ?_, List.forall_mem_cons.mpr ⟨hempty, hlines⟩⟩
    rw [withBreaks_cons, htext]
    exact String.toList_inj.mp (by simp [Break.text])
  | case2 c cs hno ih =>
    obtain ⟨first, more, htext, hlines⟩ := ih
    by_cases hc : c = '\n'
    · refine ⟨"", (.feed, first) :: more, ?_, List.forall_mem_cons.mpr ⟨hempty, hlines⟩⟩
      rw [withBreaks_cons, htext, hc]
      exact String.toList_inj.mp (by simp [Break.text])
    · obtain ⟨hfirst, hmore⟩ := List.forall_mem_cons.mp hlines
      have hno' : ¬['\\', 'n'] <+: c :: first.toList := by
        intro hpre
        obtain ⟨hslash, hn⟩ := List.cons_prefix_cons.mp hpre
        have hfront := prefix_withBreaks first more
        rw [htext, String.toList_ofList] at hfront
        obtain ⟨rest, hrest⟩ := hn.trans hfront
        exact hno rest hslash.symm hrest.symm
      refine ⟨String.ofList [c] ++ first, more, ?_,
        List.forall_mem_cons.mpr ⟨hfirst.cons hc hno', hmore⟩⟩
      rw [withBreaks_append, htext, ← String.ofList_append]
      rfl
  | case3 => exact ⟨"", [], rfl, by simpa using hempty⟩

end Text

/-! ## what is run -/

namespace Shell

/-- a text in the arguments is what is run, whatever else is asked for -/
theorem respond_of_inline {args : List String} {o : Options} {text : String}
    (ha : Invocation.ofArgs args = .ok (.run o)) (he : o.eval? = some text) (w : Surroundings) :
    respond args w = .ofProgram (.ofOptions o w.filter?) (inlineProgram text) := by
  rw [respond_of_run ha, Source.ofOptions, he]
  rfl

/-- **The lines of a text in the arguments can be told apart in two ways.**  Let lines without a line
feed and without a backslash in front of an `n` be joined, with a line feed or these two characters in
each place.  The program of the text has just these lines, and given in the arguments the text leaves
the report of the list of them: its log is printed line by line, and the run fails exactly if the log
ends with an error.  Every text is joined in this way from some lines. -/
theorem breaks_either_way :
    (∀ (first : String) (more : List (Text.Break × String)),
      (∀ line ∈ first :: more.map Prod.snd, Text.Unbroken line) →
      let text := Text.withBreaks first more
      let ls := first :: more.map Prod.snd
      (inlineProgram text).rawLines = ls ∧
      ∀ args o w, Invocation.ofArgs args = .ok (.run o) → o.eval? = some text →
        let log := o.interpreter.evaluate (.lines ls)
        respond args w = .ofProgram (.ofOptions o w.filter?) (.lines ls) ∧
        (respond args w).stdout = unlines (log.map (Report.printed o.raw)) ∧
        (respond args w).exit = if log.getLast?.any (·.severity == .error) then 1 else 0) ∧
    ∀ text, ∃ first more, Text.withBreaks first more = text ∧
      ∀ line ∈ first :: more.map Prod.snd, Text.Unbroken line := by
  refine ⟨fun first more h => ?_, Text.exists_withBreaks⟩
  intro text ls
  have hlines : (inlineProgram text).rawLines = ls := Text.lines_withBreaks h
  refine ⟨hlines, fun args o w ha he => ?_⟩
  intro log
  have hrun : respond args w = .ofProgram (.ofOptions o w.filter?) (.lines ls) := by
    rw [respond_of_inline ha he, Report.ofProgram, Report.ofProgram,
      Interpreter.run_eq_of_rawLines _ (q := .lines ls) hlines]
  have hspec := Report.ofProgram_spec o w.filter? (.lines ls)
  rw [hrun]
  exact ⟨rfl, hspec⟩

/-- a line that ends with a backslash, an empty one, one that ends with two backslashes and one that
begins with an `n` are told apart by an escape, a line feed and an escape -/
theorem breaks_either_way_backslashes :
    let more : List (Text.Break × String) :=
      [(.escape, ""), (.feed, "print b\\\\"), (.escape, "nope")]
    let text := "print a\\\\n\nprint b\\\\\\nnope"
    let w : Surroundings := ⟨fun _ => .error .noSuchFile, [], none⟩
    Text.withBreaks "print a\\" more = text ∧
    (∀ line ∈ "print a\\" :: more.map Prod.snd, Text.Unbroken line) ∧
    (inlineProgram text).rawLines = ["print a\\", "", "print b\\\\", "nope"] ∧
    respond ["-e", text] w =
      ⟨1, "a\\\nb\\\\\nERROR: Command \"nope\" Not Found.\n", ""⟩ := by
  intro more text w
  have htext : Text.withBreaks "print a\\" more = text := by decide +kernel
  have hlines : ∀ line ∈ "print a\\" :: more.map Prod.snd, Text.Unbroken line := by decide +kernel
  have ha : Invocation.ofArgs ["-e", text] =
      .ok (.run { Options.blank with eval? := some text }) := rfl
  obtain ⟨hall, -⟩ := breaks_either_way
  obtain ⟨hraw, hgiven⟩ := hall _ more hlines
  rw [htext] at hraw hgiven
  obtain ⟨hreport, -, -⟩ := hgiven _ _ w ha rfl
  refine ⟨htext, hlines, hraw, ?_⟩
  rw [hreport]
  decide +kernel

end Shell

end LineScript
