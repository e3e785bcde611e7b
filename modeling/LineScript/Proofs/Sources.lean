import LineScript.Proofs.CommandLine
import LineScript.Proofs.Encoding
import LineScript.Proofs.Halting
import LineScript.Shell.Session

/-!
# Where a program comes from

A program can be given as a text in the arguments, in a file or on standard input, and each is read in
its own way: a text in the arguments has line feeds spelled as two characters, and the others are bytes.

* `Shell.Options.interpreter`   the interpreter that some options ask for;
* `Shell.Hands`                 options and surroundings that hand over a text;
* `Shell.Report.exitOf_eq`      the exit status is decided by the last entry alone.

If the text has no such two characters, it is the same program in each of the three ways
(`Shell.sources_agree`).
-/

namespace LineScript

/-! ## texts without escapes -/

theorem Text.readEscape_of_not_prefix {c : Char} {cs : List Char} (h : ¬['\\', 'n'] <+: c :: cs) :
    readEscape c cs = c :: cs := by
  unfold readEscape
  split
  · exact absurd (List.prefix_append ['\\', 'n'] _) h
  · rfl

theorem Text.breakEscapesChars_eq_self {cs : List Char} (h : ¬['\\', 'n'] <:+: cs) :
    breakEscapesChars cs = cs := by
  induction cs with
  | nil => rfl
  | cons c cs ih =>
    have hcs : breakEscapesChars cs = cs := ih fun hin => h (List.infix_cons hin)
    show readEscape c (breakEscapesChars cs) = c :: cs
    rw [hcs]
    exact readEscape_of_not_prefix fun hpre => h hpre.isInfix

theorem Text.breakEscapes_eq_self {s : String} (h : ¬['\\', 'n'] <:+: s.toList) :
    breakEscapes s = s := by
  rw [breakEscapes, breakEscapesChars_eq_self h, String.ofList_toList]

namespace Shell

/-! ## exit status -/

/-- an error halts, so only the last entry can be one -/
theorem Report.exitOf_eq {halted : Bool} {log : List Entry} (h : HaltsWith halted log) :
    exitOf log = if log.getLast?.any (·.severity == .error) then 1 else 0 := by
  have hquiet : log.dropLast.any (·.severity == .error) = false := by
    rw [List.any_eq_false]
    intro e he herror
    have hhalts : e.severity.halts := by
      rw [eq_of_beq herror]
      rfl
    exact h.quiet_dropLast e he hhalts
  rcases log.eq_nil_or_concat with hnil | ⟨front, e, rfl⟩
  · rw [hnil]
    rfl
  · rw [List.concat_eq_append] at hquiet ⊢
    rw [List.dropLast_concat] at hquiet
    rw [exitOf, List.any_append, hquiet, List.getLast?_concat]
    simp

/-! ## options -/

def Options.interpreter (o : Options) : Interpreter :=
  ⟨.builtin, { Config.default with maxDepth := o.maxDepth?.getD Config.default.maxDepth }⟩

/-- the text is given inline, or else is in the file, or else is the standard input; what the options
ask for besides, and what is there to be read, does not matter -/
inductive Hands (text : String) (w : Surroundings) (o : Options) : Prop where
  | inline (he : o.eval? = some text)
  | file {path : String} (he : o.eval? = none) (hf : o.file? = some path)
      (hr : w.readFile path = .ok (Text.Utf8.encode text.toList))
  | stdin (he : o.eval? = none) (hf : o.file? = none) (hs : o.stdin)
      (hr : w.stdin = Text.Utf8.encode text.toList)

section
variable {text : String} {args : List String} {o : Options} {w : Surroundings}

/-- bytes that a text is written as are run as this text -/
theorem Report.ofBytes_encode (s : Settings) (text : String) :
    ofBytes s (Text.Utf8.encode text.toList) = ofProgram s (.source text) := by
  rw [ofBytes, Program.ofBytes, Text.Utf8.decode_eq_ok_iff.mpr rfl]

theorem Hands.report_eq (h : Hands text w o) (htext : ¬['\\', 'n'] <:+: text.toList)
    (s : Settings) : (Source.ofOptions o).report s w = .ofProgram s (.source text) := by
  cases h with
  | inline he =>
    rw [Source.ofOptions, he]
    show Report.ofProgram s (inlineProgram text) = _
    rw [inlineProgram, Text.breakEscapes_eq_self htext]
  | @file path he hf hr =>
    rw [Source.ofOptions, he, hf]
    show Report.ofFile s path (w.readFile path) = _
    rw [hr]
    exact Report.ofBytes_encode s text
  | stdin he hf hs hr =>
    rw [Source.ofOptions, he, hf]
    simp only [hs, if_true]
    show Report.ofBytes s w.stdin = _
    rw [hr]
    exact Report.ofBytes_encode s text

theorem respond_of_run (ha : Invocation.ofArgs args = .ok (.run o)) (w : Surroundings) :
    respond args w = (Source.ofOptions o).report (.ofOptions o w.filter?) w := by
  rw [respond, ha]

/-- the commands of a command line are the built-in ones, so the run that is reported of a program is
what is answered to it -/
theorem Settings.runWithin_ofOptions (o : Options) (filter? : Option String) (p : Program) :
    (Settings.ofOptions o filter?).interpreter.runWithin mostRoom p =
      some ((Settings.ofOptions o filter?).interpreter.run p) :=
  Interpreter.runWithin_of_builtin rfl (by decide) p

/-- what is printed is the log, and the exit status tells whether it ends with an error -/
theorem Report.ofProgram_spec (o : Options) (filter? : Option String) (p : Program) :
    let report := ofProgram (.ofOptions o filter?) p
    let log := o.interpreter.evaluate p
    report.stdout = unlines (log.map (printed o.raw)) ∧
      report.exit = if log.getLast?.any (·.severity == .error) then 1 else 0 :=
  ⟨rfl, exitOf_eq (Interpreter.evaluate_haltsWith Registry.builtin_ofBuiltins p)⟩

/-- what is read is the first source that is given -/
theorem respond_congr (ha : Invocation.ofArgs args = .ok (.run o)) {w w' : Surroundings}
    (hfilter : w.filter? = w'.filter?)
    (hread : o.eval?.isSome ∨
      o.eval? = none ∧ (∃ path, o.file? = some path ∧ w.readFile path = w'.readFile path) ∨
      o.eval? = none ∧ o.file? = none ∧ w.stdin = w'.stdin) : respond args w = respond args w' := by
  rw [respond_of_run ha, respond_of_run ha, hfilter, Source.ofOptions]
  rcases hread with heval | ⟨heval, path, hfile, hsame⟩ | ⟨heval, hfile, hsame⟩
  · obtain ⟨text, ht⟩ := Option.isSome_iff_exists.mp heval
    rw [ht]
    rfl
  · rw [heval, hfile]
    exact congrArg (Report.ofFile _ path) hsame
  · rw [heval, hfile]
    cases o.stdin with
    | false => exact congrArg (Session.report _) hsame
    | true => exact congrArg (Report.ofBytes _) hsame

end

/-- **It does not matter how a program is handed over.**  Let a text have no backslash in front of an
`n`.  Given in the arguments, in a file or on standard input, with any limit and any way to print, it
leaves the report of the text run as a program: its log is printed line by line, and the run fails
exactly if the log ends with an error.  Of several sources the text in the arguments counts before the
file and the file before standard input, and a source that does not count is not read.  Any such options
can be asked for. -/
theorem sources_agree {text : String} (htext : ¬['\\', 'n'] <:+: text.toList) :
    (∀ args o w, Invocation.ofArgs args = .ok (.run o) → Hands text w o →
      let log := o.interpreter.evaluate (.source text)
      respond args w = .ofProgram (.ofOptions o w.filter?) (.source text) ∧
      (respond args w).stdout = unlines (log.map (Report.printed o.raw)) ∧
      (respond args w).exit = if log.getLast?.any (·.severity == .error) then 1 else 0) ∧
    (∀ args args' o o' w w', Invocation.ofArgs args = .ok (.run o) →
      Invocation.ofArgs args' = .ok (.run o') → Hands text w o → Hands text w' o' →
      o.raw = o'.raw → o.maxDepth? = o'.maxDepth? →
      (respond args w).stdout = (respond args' w').stdout ∧
      (respond args w).exit = (respond args' w').exit) ∧
    (∀ args o w w', Invocation.ofArgs args = .ok (.run o) → w.filter? = w'.filter? →
      (o.eval?.isSome ∨
        o.eval? = none ∧ (∃ path, o.file? = some path ∧ w.readFile path = w'.readFile path) ∨
        o.eval? = none ∧ o.file? = none ∧ w.stdin = w'.stdin) →
      respond args w = respond args w') ∧
    ∀ o : Options, (∀ d, o.maxDepth? = some d → d ≤ greatestDepth) →
      Invocation.ofArgs o.args = .ok (.run o) := by
  have hrun : ∀ {args o w}, Invocation.ofArgs args = .ok (.run o) → Hands text w o →
      respond args w = .ofProgram (.ofOptions o w.filter?) (.source text) := by
    intro args o w ha h
    rw [respond_of_run ha, h.report_eq htext]
  refine ⟨?_, ?_, fun _ _ _ _ ha => respond_congr ha, fun _ => Invocation.ofArgs_args⟩
  · intro args o w ha h log
    have hspec := Report.ofProgram_spec o w.filter? (.source text)
    rw [hrun ha h]
    exact ⟨rfl, hspec⟩
  · intro args args' o o' w w' ha ha' h h' hraw hdepth
    obtain ⟨hout, hexit⟩ := Report.ofProgram_spec o w.filter? (.source text)
    obtain ⟨hout', hexit'⟩ := Report.ofProgram_spec o' w'.filter? (.source text)
    have hinterpreter : o.interpreter = o'.interpreter := by
      rw [Options.interpreter, Options.interpreter, hdepth]
    rw [hrun ha h, hrun ha' h', hout, hexit, hout', hexit', hinterpreter, hraw]
    exact ⟨rfl, rfl⟩

/-- a text in the arguments is run although the file is missing and standard input is no text, and it
does what the same text does that is read from standard input -/
theorem sources_agree_missing_file :
    let text := "print a\nstop b"
    let w : Surroundings := ⟨fun _ => .error .noSuchFile, [0xFF], none⟩
    let w' : Surroundings := ⟨fun _ => .ok [0xFF], Text.Utf8.encode text.toList, some "eel=trace"⟩
    respond ["missing", "--stdin", "--raw", "--max-depth", "3", "-e", text] w =
      ⟨0, "0,a\n3,b\n", ""⟩ ∧
    (respond ["-v", "--stdin", "--max-depth", "+03", "--raw"] w').stdout = "0,a\n3,b\n" ∧
    (respond ["-v", "--stdin", "--max-depth", "+03", "--raw"] w').exit = 0 := by
  intro text w w'
  have htext : ¬['\\', 'n'] <:+: text.toList := by decide +kernel
  let o : Options := ⟨some "missing", true, some text, true, some 3, false⟩
  let o' : Options := ⟨none, true, none, true, some 3, true⟩
  have ha : Invocation.ofArgs ["missing", "--stdin", "--raw", "--max-depth", "3", "-e", text] =
      .ok (.run o) := rfl
  have ha' : Invocation.ofArgs ["-v", "--stdin", "--max-depth", "+03", "--raw"] =
      .ok (.run o') := rfl
  obtain ⟨hall, hsame, -, -⟩ := sources_agree htext
  obtain ⟨hreport, -, -⟩ := hall _ _ w ha (.inline rfl)
  obtain ⟨hout, hexit⟩ := hsame _ _ _ _ w' w ha' ha (.stdin rfl rfl rfl rfl) (.inline rfl) rfl rfl
  have hleft : respond ["missing", "--stdin", "--raw", "--max-depth", "3", "-e", text] w =
      ⟨0, "0,a\n3,b\n", ""⟩ := by
    rw [hreport]
    decide +kernel
  rw [hout, hexit, hleft]
  exact ⟨rfl, rfl, rfl⟩

end Shell

end LineScript
