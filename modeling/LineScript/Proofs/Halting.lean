import LineScript.Proofs.Builtins
import LineScript.Proofs.Invariant
import LineScript.Proofs.Room
import LineScript.Proofs.Threading

/-!
# Halting entries come last

A built-in handler gives either a value or an entry, and stops exactly with an entry that halts.  A
stop among the arguments is handed on without its entry, and the line that it ends logs it once.

* `Severity.halts`     the severities of entries that end a script;
* `Outcome.Proper`     what holds of every outcome of a built-in handler and of every failure;
* `HaltsWith`          a log that has a halting entry at its end if it is halted, and none otherwise.

In the log of a program an entry that halts is the last, and there is one exactly if a line stopped
(`Interpreter.evaluateWithin_halts_last`).
-/

namespace LineScript

/-- the severities of entries that end a script -/
def Severity.halts : Severity → Bool
  | .info | .warning => false
  | .error | .halt => true

/-! ## outcomes -/

/-- an outcome has a value or an entry, not both, and stops exactly with an entry that halts -/
structure Outcome.Proper (o : Outcome) : Prop where
  stops_iff : o.stops ↔ ∃ e, o.entry? = some e ∧ e.severity.halts
  value_iff : o.value?.isSome ↔ o.entry? = none

namespace Outcome

theorem proper_value (v : Value) : (value v).Proper :=
  ⟨by simp [value], by simp [value]⟩

theorem proper_log {s : Severity} (h : ¬s.halts) (m : String) : (log s m).Proper :=
  ⟨by simp [log, h], by simp [log]⟩

theorem proper_halt {s : Severity} (h : s.halts) (m : String) : (halt s m).Proper :=
  ⟨by simp [halt, h], by simp [halt]⟩

theorem proper_failure (f : Failure) : (failure f).Proper :=
  proper_halt rfl f.message

/-- an outcome that stops has one entry, which halts -/
theorem Proper.entries_of_stops {o : Outcome} (h : o.Proper) (hs : o.stops) :
    ∃ e, o.entries = [e] ∧ e.severity.halts := by
  obtain ⟨e, he, hh⟩ := h.stops_iff.mp hs
  exact ⟨e, by rw [entries, he, Option.toList_some], hh⟩

theorem Proper.not_halts_of_goes_on {o : Outcome} (h : o.Proper) (hs : ¬o.stops) :
    ∀ e ∈ o.entries, ¬e.severity.halts := by
  intro e he hh
  exact hs (h.stops_iff.mpr ⟨e, Option.mem_toList.mp he, hh⟩)

end Outcome

/-! ## handlers -/

theorem proper_onOne {f : Value → Reply} (hf : ∀ a, (f a).outcome.Proper) (values : List Value) :
    (onOne f values).outcome.Proper := by
  cases values with
  | nil => exact Outcome.proper_failure _
  | cons a rest => exact hf a

theorem proper_onTwo {f : Value → Value → Reply} (hf : ∀ a b, (f a b).outcome.Proper)
    (values : List Value) : (onTwo f values).outcome.Proper := by
  match values with
  | [] => exact Outcome.proper_failure _
  | [a] => exact Outcome.proper_failure _
  | a :: b :: rest => exact hf a b

theorem proper_quotient (a b : Value) : (quotient a b).outcome.Proper := by
  unfold quotient
  split
  · exact Outcome.proper_failure _
  · exact Outcome.proper_value _

theorem CommandName.handler_proper (n : CommandName) (values : List Value) :
    (n.handler values).outcome.Proper := by
  cases n with
  | print | warn => exact Outcome.proper_log (by decide) _
  | error | stop => exact Outcome.proper_halt (by decide) _
  | add | sub | mul | pow | equals =>
    apply proper_onTwo
    intro a b
    exact Outcome.proper_value _
  | div => exact proper_onTwo proper_quotient values
  | not =>
    apply proper_onOne
    intro a
    exact Outcome.proper_value _

theorem Command.RunsBuiltin.run_proper {c : Command} (h : c.RunsBuiltin) (values : List Value) :
    (c.run values).outcome.Proper := by
  obtain ⟨n, hn⟩ := h
  unfold Command.run
  split
  · rw [hn]
    exact n.handler_proper values
  · split
    · exact Outcome.proper_failure _
    · rw [hn]
      exact n.handler_proper values

/-! ## lines -/

/-- a log without an entry that halts -/
def Quiet (log : List Entry) : Prop := ∀ e ∈ log, ¬e.severity.halts

theorem Command.RunsBuiltin.keeps {c : Command} (h : c.RunsBuiltin) :
    c.Keeps (fun _ => True) (fun e => ¬e.severity.halts)
      (fun reply => reply.stops ∧ reply.outcome.Proper) where
  value _ _ := trivial
  entries _ hs := (h.run_proper _).not_halts_of_goes_on hs
  reply _ hs := ⟨hs, h.run_proper _⟩

namespace Registry

/-- among the arguments of a line nothing that halts is logged, and what stops them has an entry that
halts and is not logged yet -/
theorem RunsBuiltins.expand_keeps {r : Registry} (h : r.RunsBuiltins) (limit depth : Nat)
    (wanted : Arity) (args : List Argument) :
    (r.expand limit depth wanted args).Keeps (fun _ => True) (fun e => ¬e.severity.halts)
      (fun reply => reply.stops ∧ reply.outcome.Proper) :=
  Registry.expand_keeps (fun hc => (h hc).keeps) ⟨rfl, Outcome.proper_failure _⟩ depth wanted
    fun _ _ => trivial

end Registry

/-- a log with an entry that halts at its end if it is halted, and with none otherwise -/
inductive HaltsWith : Bool → List Entry → Prop where
  | goesOn {log : List Entry} (h : Quiet log) : HaltsWith false log
  | halts {log : List Entry} {e : Entry} (h : Quiet log) (he : e.severity.halts) :
    HaltsWith true (log ++ [e])

theorem Quiet.append {a b : List Entry} (ha : Quiet a) (hb : Quiet b) : Quiet (a ++ b) := by
  intro e he
  rcases List.mem_append.mp he with he | he
  · exact ha e he
  · exact hb e he

namespace HaltsWith
variable {halted : Bool} {log : List Entry}

/-- what goes on in front of a log does not change how it ends -/
theorem after {a : List Entry} (ha : Quiet a) (h : HaltsWith halted log) :
    HaltsWith halted (a ++ log) := by
  cases h with
  | goesOn h => exact .goesOn (ha.append h)
  | halts h he =>
    rw [← List.append_assoc]
    exact .halts (ha.append h) he

theorem quiet_dropLast (h : HaltsWith halted log) : Quiet log.dropLast := by
  cases h with
  | goesOn h => exact fun e he => h e ((List.dropLast_sublist _).mem he)
  | halts h he =>
    rw [List.dropLast_concat]
    exact h

theorem getLast?_iff (h : HaltsWith halted log) :
    (∃ e, log.getLast? = some e ∧ e.severity.halts) ↔ halted := by
  cases h with
  | goesOn h =>
    constructor
    · rintro ⟨e, he, hh⟩
      exact absurd hh (h e (List.mem_of_getLast? he))
    · intro hf
      cases hf
  | @halts log e h he => exact ⟨fun _ => rfl, fun _ => ⟨e, List.getLast?_concat, he⟩⟩

/-- at most one entry halts -/
theorem countP_eq (h : HaltsWith halted log) :
    log.countP (fun e => e.severity.halts) = if halted then 1 else 0 := by
  have hq : ∀ {l : List Entry}, Quiet l → l.countP (fun e => e.severity.halts) = 0 := by
    intro l hl
    exact List.countP_eq_zero.mpr hl
  cases h with
  | goesOn h => exact hq h
  | halts h he => simp [List.countP_append, hq h, he]

end HaltsWith

theorem LineRun.haltsWith_entries {l : LineRun} (hj : Quiet l.journal.log)
    (hr : l.reply.outcome.Proper) : HaltsWith l.reply.stops l.entries := by
  rw [entries]
  by_cases hs : l.reply.stops
  · obtain ⟨e, he, hh⟩ := hr.entries_of_stops hs
    rw [he, hs]
    exact .halts hj hh
  · rw [Bool.eq_false_iff.mpr hs]
    exact .goesOn (hj.append (hr.not_halts_of_goes_on hs))

namespace Interpreter
variable {i : Interpreter}

theorem dispatch_proper (h : i.registry.OfBuiltins) (word : String) (values : List Value) :
    (i.dispatch word values).reply.outcome.Proper := by
  cases hc : i.registry.lookup? word with
  | none =>
    rw [dispatch_of_unknown hc]
    exact Outcome.proper_failure _
  | some c =>
    rw [dispatch_of_lookup hc]
    exact (h.runsBuiltins (Registry.find?_of_lookup? hc).2).run_proper values

/-- and there is always an answer -/
theorem dispatch?_proper (h : i.registry.OfBuiltins) (word : String) (values : List Value) :
    ∃ l, i.dispatch? word values = some l ∧ l.reply.outcome.Proper := by
  refine ⟨_, dispatch?_eq_some_iff.mpr ⟨rfl, ?_⟩, dispatch_proper h word values⟩
  cases hc : i.registry.lookup? word with
  | none =>
    rw [dispatch_of_unknown hc]
    exact nofun
  | some c =>
    rw [dispatch_of_lookup hc]
    exact (h (Registry.find?_of_lookup? hc).2).not_isShort values

theorem expand_keeps (h : i.registry.OfBuiltins) (args : List Argument) :
    (i.expand args).Keeps (fun _ => True) (fun e => ¬e.severity.halts)
      (fun reply => reply.stops ∧ reply.outcome.Proper) :=
  Registry.RunsBuiltins.expand_keeps h.runsBuiltins i.config.maxDepth 1 .variadic args

/-- what a line logs before its reply goes on, and its reply is proper -/
theorem runWords_proper (h : i.registry.RunsBuiltins) (word : String) (rest : List String) :
    Quiet (i.runWords (word :: rest)).journal.log ∧
    (i.runWords (word :: rest)).reply.outcome.Proper := by
  have hk : (i.expand (rest.map Argument.ofWord)).Keeps _ _ _ :=
    h.expand_keeps i.config.maxDepth 1 .variadic (rest.map Argument.ofWord)
  cases hc : i.registry.lookup? word with
  | none =>
    rw [runWords_of_unknown hc]
    exact ⟨by simp [Quiet, Journal.empty], Outcome.proper_failure _⟩
  | some c =>
    cases he : (i.expand (rest.map Argument.ofWord)).result with
    | error reply =>
      rw [runWords_of_error hc he]
      exact ⟨hk.entries, (hk.reply he).2⟩
    | ok values =>
      rw [runWords_of_ok hc he]
      refine ⟨?_, (h (Registry.find?_of_lookup? hc).2).run_proper values⟩
      rw [Journal.append_log]
      exact Quiet.append hk.entries (by simp [Quiet, Journal.ofEvent])

theorem runLine_haltsWith (h : i.registry.RunsBuiltins) (line : String) :
    HaltsWith (i.runLine line).reply.stops (i.runLine line).entries := by
  unfold runLine
  cases Text.words line with
  | nil => exact .goesOn (by simp [Quiet, LineRun.entries, runWords, Journal.empty, Reply.outcome,
      Outcome.nothing, Outcome.entries])
  | cons word rest =>
    obtain ⟨hj, hr⟩ := runWords_proper h word rest
    exact LineRun.haltsWith_entries hj hr

/-- a line that stops has an entry to log -/
theorem entry_of_stops (h : i.registry.RunsBuiltins) {line : String}
    (hs : (i.runLine line).reply.stops) : ∃ e, (i.runLine line).reply.outcome.entry? = some e := by
  unfold runLine at hs ⊢
  cases hw : Text.words line with
  | nil =>
    rw [hw] at hs
    cases hs
  | cons word rest =>
    rw [hw] at hs
    obtain ⟨e, he, -⟩ := (runWords_proper h word rest).2.stops_iff.mp hs
    exact ⟨e, he⟩

/-! ## programs -/

theorem runLines_haltsWith (h : i.registry.RunsBuiltins) (lines : List (Nat × String)) :
    HaltsWith (Run.mk (i.runLines lines)).halted (Run.mk (i.runLines lines)).log := by
  induction lines with
  | nil => exact .goesOn (by simp [Quiet, runLines, Run.log])
  | cons numbered more ih =>
    obtain ⟨n, line⟩ := numbered
    have hline := runLine_haltsWith h line
    by_cases hs : (i.runLine line).reply.stops
    · rw [runLines_of_stops hs, Run.log_cons, Run.halted, Run.haltLine?_cons, if_pos hs]
      rw [hs] at hline
      simpa [Run.log] using hline
    · rw [runLines_of_goes_on hs, Run.log_cons, Run.halted, Run.haltLine?_cons, if_neg hs]
      rw [Bool.eq_false_iff.mpr hs] at hline
      cases hline with
      | goesOn hq => exact ih.after hq

theorem evaluate_haltsWith_of_runsBuiltins (h : i.registry.RunsBuiltins) (p : Program) :
    HaltsWith (i.run p).halted (i.evaluate p) := by
  have hrun : HaltsWith (i.run p).halted (i.run p).log := runLines_haltsWith h p.effective
  unfold evaluate withSentinel
  split
  · rename_i hnil
    rw [hnil] at hrun
    cases hr : (i.run p).halted with
    | false => exact .goesOn (by simp [Quiet, Severity.halts])
    | true =>
      have hlast := hrun.getLast?_iff.mpr hr
      simp at hlast
  · exact hrun

theorem evaluate_haltsWith (h : i.registry.OfBuiltins) (p : Program) :
    HaltsWith (i.run p).halted (i.evaluate p) :=
  evaluate_haltsWith_of_runsBuiltins h.runsBuiltins p

/-- the entry of a line that stops is the last that is logged -/
theorem getLast?_log_of_stops (h : i.registry.OfBuiltins) {lines : List (Nat × String)}
    {numbered : Nat × LineRun} (hl : numbered ∈ i.runLines lines) (hs : numbered.2.reply.stops) :
    ∃ e, numbered.2.reply.outcome.entry? = some e ∧
      (Run.mk (i.runLines lines)).log.getLast? = some e := by
  induction lines with
  | nil => cases hl
  | cons line more ih =>
    obtain ⟨n, line⟩ := line
    by_cases hstop : (i.runLine line).reply.stops
    · rw [runLines_of_stops hstop] at hl ⊢
      rw [List.mem_singleton] at hl
      obtain ⟨e, he⟩ := entry_of_stops h.runsBuiltins hstop
      rw [hl]
      refine ⟨e, he, ?_⟩
      rw [Run.log_cons, LineRun.entries, Outcome.entries, he]
      simp [Run.log]
    · rw [runLines_of_goes_on hstop] at hl ⊢
      rcases List.mem_cons.mp hl with hfirst | hlater
      · rw [hfirst] at hs
        exact absurd hs hstop
      · obtain ⟨e, he, hlast⟩ := ih hlater
        refine ⟨e, he, ?_⟩
        rw [Run.log_cons, List.getLast?_append, hlast, Option.some_or]

end Interpreter

theorem Run.halted_iff (r : Run) : r.halted ↔ ∃ numbered ∈ r.lines, numbered.2.reply.stops := by
  rw [halted, haltLine?, Option.isSome_map, List.find?_isSome]

/-- **Halting entries come last.**  A program is answered if and only if there is room for every line
of it that is run, and so for certain if there is room for every command.  The log that is answered has
an entry; no entry but the last halts; and the last halts exactly if a line stopped, it is then the
entry that this line stopped with, and no other entry halts.  It is so because every call of a command
gives a value or an entry, and stops exactly with an entry that halts, and among arguments nothing that
halts is logged. -/
theorem Interpreter.evaluateWithin_halts_last (i : Interpreter) (h : i.registry.OfBuiltins)
    (room : Nat) (p : Program) :
    ((∃ log, i.evaluateWithin room p = some log) ↔ i.Fits room p) ∧
    (i.registry.Fits room → i.Fits room p) ∧
    (∀ log, i.evaluateWithin room p = some log → ∃ run, i.runWithin room p = some run ∧
      log ≠ [] ∧
      (∀ e ∈ log.dropLast, ¬e.severity.halts) ∧
      ((∃ e, log.getLast? = some e ∧ e.severity.halts) ↔
        ∃ numbered ∈ run.lines, numbered.2.reply.stops) ∧
      ∀ numbered ∈ run.lines, numbered.2.reply.stops →
        ∃ e, numbered.2.reply.outcome.entry? = some e ∧ log.getLast? = some e ∧
          log.countP (fun e => e.severity.halts) = 1) ∧
    (∀ word values, ∃ l, i.dispatch? word values = some l ∧ l.reply.outcome.Proper) ∧
    ∀ args e, i.registry.expandWithin room i.config.maxDepth 1 .variadic args = some e →
      e.Keeps (fun _ => True) (fun e => ¬e.severity.halts)
        (fun reply => reply.stops ∧ reply.outcome.Proper) := by
  have hsupplied := supplied_of_ofBuiltins h p
  refine ⟨?_, fun hroom => fits_of_fits hroom p, ?_, dispatch?_proper h, ?_⟩
  · simp only [evaluateWithin_eq_some_iff, exists_eq_left, hsupplied, and_true]
  · intro log hanswer
    obtain ⟨rfl, hfits, -⟩ := evaluateWithin_eq_some_iff.mp hanswer
    have hlog := evaluate_haltsWith h p
    refine ⟨_, runWithin_eq_some_iff.mpr ⟨rfl, hfits, hsupplied⟩, i.evaluate_ne_nil p,
      hlog.quiet_dropLast, ?_, ?_⟩
    · rw [hlog.getLast?_iff, Run.halted_iff]
    · intro numbered hl hs
      obtain ⟨e, he, hlast⟩ := getLast?_log_of_stops h hl hs
      have hhalted : (i.run p).halted := (Run.halted_iff _).mpr ⟨numbered, hl, hs⟩
      have hne : (i.run p).log ≠ [] := by
        intro hnil
        rw [run] at hnil
        rw [hnil] at hlast
        cases hlast
      refine ⟨e, he, ?_, ?_⟩
      · rw [evaluate, withSentinel, if_neg hne]
        exact hlast
      · rw [hlog.countP_eq, if_pos hhalted]
  · intro args e he
    rw [Registry.expandWithin_eq he]
    exact expand_keeps h args

/-- here `stop` only prints, so the second line is the one that stops: with a sum whose one operand has
logged two entries by then -/
theorem evaluateWithin_halts_last_renamed :
    let i : Interpreter :=
      ⟨Registry.builtin.register ⟨.stop, .fixed 1, CommandName.print.handler⟩, .default⟩
    let p := Program.lines ["stop a", "print add warn w print p", "print never"]
    let log : List Entry := [⟨.info, "a"⟩, ⟨.info, "p"⟩, ⟨.warning, "w true"⟩,
      ⟨.error, "Command \"add\" expects 2 arguments, got 1."⟩]
    i.registry.OfBuiltins ∧ i.registry.Fits 2 ∧
    i.evaluateWithin 2 p = some log ∧
    (∃ run, i.runWithin 2 p = some run ∧ ∃ numbered ∈ run.lines, numbered.2.reply.stops) ∧
    ∃ l, i.dispatch? "stop" [] = some l ∧ l.reply.outcome.Proper := by
  intro i p log
  have hstop : Command.OfBuiltin ⟨.stop, .fixed 1, CommandName.print.handler⟩ :=
    ⟨.print, rfl, Nat.zero_le 1⟩
  have hr : i.registry.OfBuiltins := Registry.builtin_ofBuiltins.register hstop
  have hroom : i.registry.Fits 2 := by
    intro n c hc
    rw [Registry.find?_register] at hc
    split at hc
    · cases hc
      decide
    · exact Registry.fits_builtin (Nat.le_refl 2) hc
  obtain ⟨hanswered, hfits, hlogs, hdispatch, -⟩ := i.evaluateWithin_halts_last hr 2 p
  obtain ⟨answer, hanswer⟩ := hanswered.mpr (hfits hroom)
  have hlog : answer = log := by
    rw [(Interpreter.evaluateWithin_eq_some_iff.mp hanswer).1]
    decide +kernel
  rw [hlog] at hanswer
  obtain ⟨run, hrun, -, -, hhalts, -⟩ := hlogs log hanswer
  exact ⟨hr, hroom, hanswer, ⟨run, hrun, hhalts.mp ⟨_, rfl, rfl⟩⟩, hdispatch "stop" []⟩

/-- a sum that takes more operands than there can be room for: its handler gets all that it reads, but a
program that calls it inside a line has no log -/
theorem evaluateWithin_none_of_greatest_sum :
    let sum : Command := ⟨.add, .fixed 0xFFFFFFFFFFFFFFFF, CommandName.add.handler⟩
    let i : Interpreter := ⟨Registry.builtin.register sum, .default⟩
    i.registry.OfBuiltins ∧ i.evaluateWithin mostRoom (.source "print add 1 2") = none := by
  intro sum i
  have hsum : sum.OfBuiltin := by
    refine ⟨.add, rfl, ?_⟩
    show 2 ≤ 0xFFFFFFFFFFFFFFFF
    decide
  refine ⟨Registry.builtin_ofBuiltins.register hsum, ?_⟩
  rw [← Option.isNone_iff_eq_none]
  decide +kernel

end LineScript
