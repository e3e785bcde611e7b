import LineScript.Proofs.Composition
import LineScript.Proofs.Delivery
import LineScript.Proofs.Sources

/-!
# Sessions and scripts

A session runs every line as a program of its own, and a script runs lines until one stops.

* `Session.answerTo`  what a session prints for a line: nothing for a blank line, and otherwise the
                      log of that line alone.

A session prints its greeting and the answers to the lines in front of the first that quits
(`Session.turns_of_delivers`), so a line that stops ends no session.  Where no line stops, the logs of
the lines one behind the other are the log of a script of these lines (`Interpreter.log_of_goes_on`).
-/

namespace LineScript

/-! ## lines as programs -/

namespace Interpreter
variable (i : Interpreter)

/-- a line is the same program as its text, if it has no line feed -/
theorem run_source_eq_lines {line : String} (h : '\n' ∉ line.toList) :
    i.run (.source line) = i.run (.lines [line]) :=
  i.run_eq_of_rawLines (Text.lines_eq_singleton h)

/-- the white space around a line does not matter -/
theorem evaluate_trim {line : String} (h : '\n' ∉ line.toList) :
    i.evaluate (.source (Text.trim line)) = i.evaluate (.source line) := by
  have htrim : '\n' ∉ (Text.trim line).toList := by
    rw [Text.toList_trim]
    intro hmem
    have hdrop := (Text.dropBlankEnd_prefix _).subset hmem
    exact h ((List.dropWhile_suffix _).subset hdrop)
  apply i.evaluate_eq_of_wordLines
  rw [Program.wordLines, Program.wordLines, Program.rawLines, Program.rawLines,
    Text.lines_eq_singleton h, Text.lines_eq_singleton htrim, List.map_singleton, List.map_singleton,
    Text.words_trim]

/-- while nothing stops, lines log what each of them logs -/
theorem log_of_goes_on {lines : List String} (hfeed : ∀ line ∈ lines, '\n' ∉ line.toList)
    (h : ∀ line ∈ lines, ¬(i.run (.source line)).halted) :
    (i.run (.lines lines)).log = lines.flatMap fun line => (i.run (.source line)).log := by
  induction lines with
  | nil => rfl
  | cons line lines ih =>
    obtain ⟨hline, hlines⟩ := List.forall_mem_cons.mp hfeed
    obtain ⟨hgo, hmore⟩ := List.forall_mem_cons.mp h
    rw [List.flatMap_cons, ← ih hlines hmore, run_source_eq_lines i hline]
    rw [run_source_eq_lines i hline] at hgo
    have happend := i.log_append [line] lines
    rwa [if_neg hgo] at happend

end Interpreter

/-! ## sessions -/

namespace Shell.Session

/-- what a session prints for a line -/
def answerTo (i : Interpreter) (line : String) : String :=
  if Text.trim line = "" then ""
  else unlines ((i.evaluate (.source line)).map Entry.render)

theorem stdout_rendered (s : Settings) (p : Program) :
    (Report.ofProgram { s with raw := false } p).stdout =
      unlines ((s.interpreter.evaluate p).map Entry.render) := by
  unfold Report.ofProgram Report.ofLog
  rfl

theorem ofLine_of_quits {piece : List UInt8} {line : String} (h : ReadAs piece line)
    (hq : Text.trim line = quitWord) (s : Settings) : Turn.ofLine s piece = .quit := by
  obtain ⟨text, hd, ht⟩ := h.exists_trim
  rw [Turn.ofLine, hd]
  simp only [Turn.ofTyped, ht, if_pos hq]

/-- any other line that is delivered is answered, and the session goes on -/
theorem ofLine_of_goes_on {piece : List UInt8} {line : String} (h : ReadAs piece line)
    (hp : 0x0A ∉ piece) (hq : Text.trim line ≠ quitWord) (s : Settings) :
    ∃ err, Turn.ofLine s piece = .output (answerTo s.interpreter line) err := by
  obtain ⟨text, hd, ht⟩ := h.exists_trim
  rw [Turn.ofLine, hd]
  simp only [Turn.ofTyped, ht, if_neg hq]
  by_cases hblank : Text.trim line = ""
  · rw [if_pos hblank, answerTo, if_pos hblank]
    exact ⟨_, rfl⟩
  · rw [if_neg hblank, answerTo, if_neg hblank,
      ← s.interpreter.evaluate_trim (h.lineFeed_not_mem hp), stdout_rendered]
    exact ⟨_, rfl⟩

/-- a session answers the lines that are delivered, up to the first that quits -/
theorem turns_of_delivers {s : Settings} {pieces : List (List UInt8)} {lines : List String}
    (h : Delivers pieces lines) (hp : ∀ piece ∈ pieces, 0x0A ∉ piece) :
    (turns s pieces).exit = 0 ∧
      (turns s pieces).stdout = String.join ((asked lines).map (answerTo s.interpreter)) := by
  induction h with
  | done => exact ⟨rfl, rfl⟩
  | @line piece pieces line lines hl hr ih =>
    obtain ⟨hpiece, hpieces⟩ := List.forall_mem_cons.mp hp
    by_cases hq : Text.trim line = quitWord
    · rw [turns, ofLine_of_quits hl hq, asked_cons_of_quits hq]
      exact ⟨rfl, rfl⟩
    · obtain ⟨err, hturn⟩ := ofLine_of_goes_on hl hpiece hq s
      obtain ⟨hexit, hout⟩ := ih hpieces
      rw [turns, hturn, asked_cons hq, List.map_cons, String.join_cons, ← hout]
      exact ⟨hexit, rfl⟩
  | quit hl hq pieces lines =>
    rw [turns, ofLine_of_quits hl hq, asked_cons_of_quits hq]
    exact ⟨rfl, rfl⟩

/-- **A session is the evaluation of its lines one by one.**  Let lines be delivered from the input.  A
session greets, prints for each line in front of the first that quits nothing if it is blank and
otherwise the log of the line alone, and does not fail; so no line changes what is printed for another.
If no such line stops, what these lines log, one behind the other, is what a script of them logs, be it a
list of lines or a text, with the word for no output if it is nothing.  Any lines without line feeds and
backspaces can be delivered, with either line end. -/
theorem answers_lines {args : List String} {o : Options}
    (ha : Invocation.ofArgs args = .ok (.run o)) (hs : Source.ofOptions o = .session) :
    let i := o.interpreter
    (∀ (w : Surroundings) (lines : List String), Delivers (inputLines w.stdin) lines →
      (respond args w).exit = 0 ∧
      (respond args w).stdout =
        i.banner ++ "\n" ++ String.join ((asked lines).map (answerTo i)) ∧
      ((∀ line ∈ asked lines, ¬(i.run (.source line)).halted) →
        let logs := (asked lines).flatMap fun line => (i.run (.source line)).log
        i.evaluate (.lines (asked lines)) = i.withSentinel logs ∧
        i.evaluate (.source ("\n".intercalate (asked lines))) = i.withSentinel logs)) ∧
    ∀ (lines : List String) (ending : String),
      (∀ line ∈ lines, '\n' ∉ line.toList ∧ Text.backspace ∉ line.toList) →
      ending = "" ∨ ending = "\r" →
      Delivers (inputLines (Text.Utf8.encode (unlines (lines.map (· ++ ending))).toList)) lines := by
  intro i
  refine ⟨?_, fun lines ending h he => delivers_unlines h he⟩
  intro w lines hd
  have hpieces : ∀ piece ∈ inputLines w.stdin, 0x0A ∉ piece := fun _ =>
    lineFeed_not_mem_inputLines
  obtain ⟨hexit, hout⟩ := turns_of_delivers (s := .ofOptions o w.filter?) hd hpieces
  have hfeed := hd.lineFeed_not_mem hpieces
  rw [respond_of_run ha, hs]
  refine ⟨hexit, congrArg (i.banner ++ "\n" ++ ·) hout, ?_⟩
  intro hgo logs
  have hlines : i.evaluate (.lines (asked lines)) = i.withSentinel logs :=
    congrArg i.withSentinel (i.log_of_goes_on hfeed hgo)
  refine ⟨hlines, ?_⟩
  rw [← hlines]
  exact i.evaluate_eq_of_wordLines
    (Program.wordLines_source "" (fun c hc => by cases hc) (fun hc => by cases hc) hfeed)

/-- a blank line, a silent line and one that stops, and nothing behind the line that quits: the silent
line is answered by the word for no output, which is missing from the script of the first three lines -/
theorem answers_lines_quit :
    let lines := ["print a", " ", "// nothing", "stop b", "add 1", " :quit ", "print c"]
    let w : Surroundings :=
      ⟨fun _ => .error .noSuchFile, Text.Utf8.encode (unlines (lines.map (· ++ "\r"))).toList, none⟩
    (respond ["--raw"] w).exit = 0 ∧
    (respond ["--raw"] w).stdout = Interpreter.default.banner ++ "\n" ++
      "a\nno output\nExecution Halted: b\nERROR: Command \"add\" expects 2 arguments, got 1.\n" ∧
    Interpreter.default.evaluate (.source "print a\n \n// nothing") = [⟨.info, "a"⟩] := by
  intro lines w
  let o : Options := ⟨none, false, none, true, none, false⟩
  have ha : Invocation.ofArgs ["--raw"] = .ok (.run o) := rfl
  obtain ⟨hsession, hdelivers⟩ := answers_lines ha rfl
  have hd := hdelivers lines "\r" (by decide +kernel) (Or.inr rfl)
  obtain ⟨hexit, hout, -⟩ := hsession w lines hd
  refine ⟨hexit, ?_, ?_⟩
  · rw [hout]
    decide +kernel
  · let quiet := ["print a", " ", "// nothing"]
    have hquiet := hdelivers quiet "" (by decide +kernel) (Or.inl rfl)
    obtain ⟨-, -, hscript⟩ := hsession
      ⟨w.readFile, Text.Utf8.encode (unlines (quiet.map (· ++ ""))).toList, none⟩ quiet hquiet
    exact (hscript (by decide +kernel)).2.trans (by decide +kernel)

end Shell.Session

end LineScript
