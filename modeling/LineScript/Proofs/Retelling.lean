import Mathlib.Data.List.Basic
import LineScript.Proofs.Builtins
import LineScript.Proofs.Rules

/-!
# The log retold from the events

A call is noted as an event before it is made.  Its entry is put into the log after it, by the
expansion if the call goes on and at the end of the line if it stops.  All the same the log follows
from the events: it is what the calls that they note have logged, in the same order, and the message
of the failure if one ended the run.

* `Registry.retold`       the entries of the call that an event notes;
* `Run.failure?`          the failure that ended a run, and `Interpreter.Fails`: what it can be;
* `Event.entry?`          the entry that an event tells of if all commands are the built-in ones.

For any registry this is `Interpreter.log_eq_retold`, and for the built-in one
`Interpreter.evaluate_told_by_events`.
-/

namespace LineScript

/-! ## replies -/

namespace Reply

/-- what a call itself has logged: nothing if it failed -/
def logged : Reply → List Entry
  | .done o => o.entries
  | .failed _ => []

def failure? : Reply → Option Failure
  | .done _ => none
  | .failed f => some f

end Reply

/-- a failure as it is logged -/
def Failure.entry (f : Failure) : Entry := ⟨.error, f.message⟩

namespace Reply

theorem entries_outcome (reply : Reply) :
    reply.outcome.entries = reply.logged ++ reply.failure?.toList.map Failure.entry := by
  cases reply with
  | done o => exact (List.append_nil _).symm
  | failed f => rfl

theorem failure?_of_goes_on {reply : Reply} (h : ¬reply.stops) : reply.failure? = none := by
  cases reply with
  | done o => rfl
  | failed f => exact absurd rfl h

theorem logged_of_goes_on {reply : Reply} (h : ¬reply.stops) :
    reply.logged = reply.outcome.entries := by
  rw [entries_outcome, failure?_of_goes_on h]
  exact (List.append_nil _).symm

end Reply

/-! ## events -/

namespace Registry

def called? (r : Registry) : Event → Option Command
  | .expanding n _ _ => r.find? n
  | .dispatching word _ => r.lookup? word
  | .halted _ => none

theorem find?_of_called? {r : Registry} {e : Event} {c : Command} (h : r.called? e = some c) :
    r.find? c.name = some c := by
  cases e with
  | expanding n depth values =>
    rw [r.name_of_find h]
    exact h
  | dispatching word values => exact (find?_of_lookup? h).2
  | halted n => cases h

/-- what the call of an event has logged -/
def retold (r : Registry) (e : Event) : List Entry :=
  ((r.called? e).map fun c => (c.run e.values).logged).getD []

theorem retold_of_called? {r : Registry} {e : Event} {c : Command} (h : r.called? e = some c) :
    r.retold e = (c.run e.values).logged := by
  rw [retold, h, Option.map_some, Option.getD_some]

theorem retold_expanding {r : Registry} {c : Command} (h : r.find? c.name = some c) (depth : Nat)
    (values : List Value) : r.retold (.expanding c.name depth values) = (c.run values).logged :=
  retold_of_called? h

theorem retold_dispatching {r : Registry} {word : String} {c : Command}
    (h : r.lookup? word = some c) (values : List Value) :
    r.retold (.dispatching word values) = (c.run values).logged :=
  retold_of_called? h

theorem retold_of_not_called? {r : Registry} {e : Event} (h : r.called? e = none) :
    r.retold e = [] := by
  rw [retold, h, Option.map_none, Option.getD_none]

end Registry

/-! ## where events come from -/

theorem Forest.Noted.exists_called {r : Registry} {limit depth : Nat} {args : List Argument}
    {e : Event} (h : Forest.Noted r limit depth args e) : ∃ c, r.called? e = some c := by
  cases h with
  | call hc => exact ⟨_, hc⟩

namespace Interpreter

/-- a line notes calls of registered commands only -/
theorem Runs.exists_called {i : Interpreter} {words : List String} {l : LineRun} (h : i.Runs words l)
    {e : Event} (he : e ∈ l.journal.events) : ∃ c, i.registry.called? e = some c := by
  cases h with
  | blank => cases he
  | unknown hc tokens => cases he
  | stopped hc hf hw => exact (hw.noted_of_mem hf.2 he).exists_called
  | dispatched hc hf hw =>
    rcases List.mem_append.mp he with he | he
    · exact (hw.noted_of_mem hf.2 he).exists_called
    · rw [List.mem_singleton.mp he]
      exact ⟨_, hc⟩

theorem exists_called_of_mem_events {i : Interpreter} {p : Program} {e : Event}
    (h : e ∈ (i.run p).events) : (∃ n, e = .halted n) ∨ ∃ c, i.registry.called? e = some c := by
  rcases mem_events_cases h with hhalt | ⟨numbered, -, he⟩
  · exact Or.inl hhalt
  · exact Or.inr ((i.runs_runLine numbered.2).exists_called he)

end Interpreter

/-! ## walks and lines -/

/-- what was logged by the call that stopped a walk, and is not in the journal yet -/
def heldBack : Except Reply (List Value) → List Entry
  | .ok _ => []
  | .error reply => reply.logged

theorem heldBack_map (result : Except Reply (List Value)) (g : List Value → List Value) :
    heldBack (result.map g) = heldBack result := by
  cases result <;> rfl

theorem Forest.Walks.log_eq_retold {r : Registry} {limit depth : Nat} {f : Forest}
    {result : Except Reply (List Value)} {noted : Journal} {rest : List Argument}
    (h : f.Walks limit depth result noted) (hf : f.Shaped r rest) :
    noted.log ++ heldBack result = noted.events.flatMap r.retold := by
  -- without `heldBack` this fails where a call stops: its event is noted and its entry not yet
  induction h generalizing rest with
  | nil depth => rfl
  | leaf hm arg ih =>
    rw [heldBack_map]
    exact ih hf.2
  | tooDeep hd arg c operands more => rfl
  | inside hd ho arg c more ih => exact ih hf.2.2.1
  | @stops depth c operands values noted hd ho hs arg more ih =>
    have hc := Registry.find?_of_commandOf? hf.1
    have hin : noted.log ++ [] = noted.events.flatMap r.retold := ih hf.2.2.1
    rw [Journal.append_log, Journal.log_ofEvent, hin, Journal.append_events, List.flatMap_append]
    show _ ++ (c.run values).logged = _ ++ [Event.expanding c.name depth values].flatMap r.retold
    rw [List.flatMap_singleton, Registry.retold_expanding hc]
  | @goesOn depth c operands more values result noted later hd ho hs hm arg ih1 ih2 =>
    have hc := Registry.find?_of_commandOf? hf.1
    have hin : noted.log ++ [] = noted.events.flatMap r.retold := ih1 hf.2.2.1
    have hcall : r.retold (.expanding c.name depth values) = (c.run values).outcome.entries :=
      (Registry.retold_expanding hc _ _).trans (Reply.logged_of_goes_on hs)
    rw [heldBack_map]
    simp only [Journal.append_log, Journal.append_events, Journal.log_ofEvent, Journal.log_ofLog,
      List.append_assoc]
    rw [ih2 hf.2.2.2, ← hcall]
    show _ = (noted.events ++ (_ :: later.events)).flatMap r.retold
    rw [List.flatMap_append, List.flatMap_cons, ← hin, List.append_nil, List.nil_append]

theorem Interpreter.Runs.log_eq_retold {i : Interpreter} {words : List String} {l : LineRun}
    (h : i.Runs words l) :
    l.journal.log ++ l.reply.logged = l.journal.events.flatMap i.registry.retold := by
  cases h with
  | blank => rfl
  | unknown hc tokens => rfl
  | stopped hc hf hw => exact hw.log_eq_retold hf.2
  | @dispatched word c tokens f values noted hc hf hw =>
    have hin : noted.log ++ [] = noted.events.flatMap i.registry.retold := hw.log_eq_retold hf.2
    show (noted.log ++ []) ++ (c.run values).logged = (noted.events ++ [_]).flatMap _
    rw [hin, List.flatMap_append, List.flatMap_singleton, Registry.retold_dispatching hc]

/-! ## what ends a run -/

/-- the failure of the last line that was run -/
def Run.failure? (r : Run) : Option Failure :=
  r.lines.getLast?.bind fun (_, l) => l.reply.failure?

theorem Run.failure?_cons_of_goes_on {l : LineRun} (h : ¬l.reply.stops) (n : Nat)
    (ls : List (Nat × LineRun)) : (Run.mk ((n, l) :: ls)).failure? = (Run.mk ls).failure? := by
  cases ls with
  | nil => exact Reply.failure?_of_goes_on h
  | cons other ls =>
    unfold failure?
    rw [List.getLast?_cons_cons]

namespace Interpreter

/-- the failures that can end the run of a program -/
inductive Fails (i : Interpreter) (p : Program) : Failure → Prop where
  | unknown {n : Nat} {line word : String} {tokens : List String} (hl : (n, line) ∈ p.effective)
      (hw : Text.words line = word :: tokens) : i.Fails p (.unknownCommand word)
  | tooDeep : i.Fails p (.depthExceeded i.config.maxDepth)
  | call {n : CommandName} {c : Command} {values : List Value} {f : Failure}
      (hc : i.registry.find? n = some c) (hf : c.run values = .failed f) : i.Fails p f

variable {i : Interpreter}

theorem fails_of_failure? {p : Program} {f : Failure} (h : (i.run p).failure? = some f) :
    i.Fails p f := by
  obtain ⟨⟨n, l⟩, hlast, hfail⟩ := Option.bind_eq_some_iff.mp h
  obtain ⟨line, hmem, hrun⟩ := exists_of_mem_runLines (List.mem_of_getLast? hlast)
  have hl : i.Runs (Text.words line) l := by
    rw [show l = i.runLine line from hrun]
    exact i.runs_runLine line
  have hreply : l.reply = .failed f := by
    cases hr : l.reply with
    | done o =>
      simp [hr, Reply.failure?] at hfail
    | failed g =>
      simp only [hr, Reply.failure?, Option.some.injEq] at hfail
      rw [hfail]
  generalize hw : Text.words line = words at hl
  cases hl with
  | blank => cases hreply
  | unknown hc tokens =>
    cases hreply
    exact .unknown hmem hw
  | stopped hc hf hwalk =>
    rcases hwalk.reply_cases hf.2 rfl with hdeep | ⟨c, values, hfind, hcall⟩
    · cases hdeep.symm.trans hreply
      exact .tooDeep
    · exact .call hfind (hcall.symm.trans hreply)
  | dispatched hc hf hwalk => exact .call (Registry.find?_of_lookup? hc).2 hreply

/-! ## runs -/

theorem runLines_log_eq_retold (i : Interpreter) (lines : List (Nat × String)) :
    (Run.mk (i.runLines lines)).log =
      (Run.mk (i.runLines lines)).events.flatMap i.registry.retold
        ++ (Run.mk (i.runLines lines)).failure?.toList.map Failure.entry := by
  induction lines with
  | nil => rfl
  | cons numbered more ih =>
    obtain ⟨n, line⟩ := numbered
    have hline := (i.runs_runLine line).log_eq_retold
    have hhalt : i.registry.retold (.halted n) = [] := Registry.retold_of_not_called? rfl
    by_cases hs : (i.runLine line).reply.stops
    · rw [runLines_of_stops hs, Run.log_cons, Run.events_cons, if_pos hs, LineRun.entries,
        Reply.entries_outcome, ← List.append_assoc, hline]
      simp only [Run.log, Run.events, Run.failure?, List.flatMap_nil, List.append_nil,
        List.flatMap_append, List.flatMap_singleton, hhalt,
        List.getLast?_singleton, Option.bind_some]
    · rw [runLines_of_goes_on hs, Run.log_cons, Run.events_cons, if_neg hs, List.append_nil,
        Run.failure?_cons_of_goes_on hs, LineRun.entries, ← Reply.logged_of_goes_on hs, hline, ih,
        List.flatMap_append, List.append_assoc]

/-- the log of a run is what the calls of its events have logged, and then the failure that ended it -/
theorem log_eq_retold (i : Interpreter) (p : Program) :
    (i.run p).log =
      (i.run p).events.flatMap i.registry.retold
        ++ (i.run p).failure?.toList.map Failure.entry :=
  i.runLines_log_eq_retold p.effective

theorem mem_log_iff {p : Program} {entry : Entry} :
    entry ∈ (i.run p).log ↔
      (∃ e ∈ (i.run p).events, entry ∈ i.registry.retold e) ∨
      ∃ f, (i.run p).failure? = some f ∧ f.entry = entry := by
  rw [i.log_eq_retold p, List.mem_append, List.mem_flatMap, List.mem_map]
  simp only [Option.mem_toList]

end Interpreter

/-! ## the built-in commands -/

/-- the severity that a command logs with, for the four that do nothing but log -/
def CommandName.severity? : CommandName → Option Severity
  | .print => some .info
  | .warn => some .warning
  | .error => some .error
  | .stop => some .halt
  | .add | .sub | .mul | .div | .pow | .equals | .not => none

namespace Event

/-- the command that an event names -/
def command? : Event → Option CommandName
  | .expanding n _ _ => some n
  | .dispatching word _ => CommandName.ofWord? word
  | .halted _ => none

def severity? (e : Event) : Option Severity := e.command?.bind CommandName.severity?

/-- the entry that the command of an event logs -/
def entry? (e : Event) : Option Entry := e.severity?.map (⟨·, joined e.values⟩)

theorem map_severity_filterMap_entry? (events : List Event) :
    (events.filterMap entry?).map Entry.severity = events.filterMap severity? := by
  rw [List.map_filterMap]
  congr 1
  funext e
  unfold entry?
  cases e.severity? <;> rfl

end Event

theorem CommandName.logged_handler (n : CommandName) (values : List Value) :
    (n.handler values).logged = (n.severity?.map (⟨·, joined values⟩)).toList := by
  cases n with
  | print | warn | error | stop => rfl
  | add | sub | mul | pow | equals =>
    match values with
    | [] => rfl
    | [a] => rfl
    | a :: b :: rest => rfl
  | div =>
    match values with
    | [] => rfl
    | [a] => rfl
    | a :: b :: rest =>
      show (quotient a b).logged = []
      unfold quotient
      split <;> rfl
  | not =>
    match values with
    | [] => rfl
    | a :: rest => rfl

theorem CommandName.severity?_of_fixed {n : CommandName} {count : Nat}
    (h : n.arity = .fixed count) : n.severity? = none := by
  cases n with
  | print | warn | error | stop => cases h
  | add | sub | mul | div | pow | equals | not => rfl

theorem CommandName.logged_run_builtin (n : CommandName) (values : List Value) :
    (n.builtin.run values).logged = (n.severity?.map (⟨·, joined values⟩)).toList := by
  rcases n.builtin.run_cases values with ⟨-, hrun⟩ | ⟨count, ha, -, hrun⟩
  · rw [hrun]
    exact n.logged_handler values
  · rw [hrun, severity?_of_fixed ha]
    rfl

theorem Registry.retold_builtin (e : Event) : Registry.builtin.retold e = e.entry?.toList := by
  have hcalled : Registry.builtin.called? e = e.command?.map CommandName.builtin := by
    cases e with
    | expanding n depth values => rfl
    | dispatching word values =>
      show (CommandName.ofWord? word).bind _ = (CommandName.ofWord? word).map _
      cases CommandName.ofWord? word <;> rfl
    | halted n => rfl
  unfold Event.entry? Event.severity?
  cases hn : e.command? with
  | none =>
    rw [hn] at hcalled
    exact retold_of_not_called? hcalled
  | some n =>
    rw [hn] at hcalled
    rw [retold_of_called? hcalled]
    exact n.logged_run_builtin e.values

/-- the entries of the built-in commands are read off the events -/
theorem Interpreter.log_eq_entries (config : Config) (p : Program) :
    let run := Interpreter.run ⟨.builtin, config⟩ p
    run.log = run.events.filterMap Event.entry? ++ run.failure?.toList.map Failure.entry := by
  intro run
  rw [show run.log = _ from Interpreter.log_eq_retold _ p, List.filterMap_eq_flatMap_toList]
  congr 2
  funext e
  exact Registry.retold_builtin e

theorem Interpreter.Fails.cases_of_builtins {i : Interpreter} {p : Program} {f : Failure}
    (h : i.Fails p f) (hr : i.registry.OfBuiltins) :
    (∃ word, f = .unknownCommand word) ∨ f = .divisionByZero ∨
    (∃ name expected got, f = .arityMismatch name expected got) ∨
    f = .depthExceeded i.config.maxDepth := by
  cases h with
  | unknown hl hw => exact Or.inl ⟨_, rfl⟩
  | tooDeep => exact Or.inr (Or.inr (Or.inr rfl))
  | call hc hrun =>
    rcases (hr hc).failed_cases hrun with h | ⟨count, h⟩
    · exact Or.inr (Or.inl h)
    · exact Or.inr (Or.inr (Or.inl ⟨_, _, _, h⟩))

/-- **The log and the events tell the same story.**  Take the events of a program in their order, drop
those whose command does not log, and put the severity of its command for each that is left: these are
the severities of the log, with one more error exactly if a failure ended the run; and where nothing is
left there is the entry for no output alone.  The entries themselves are retold in the same way, and
the failure is one of four. -/
theorem Interpreter.evaluate_told_by_events (config : Config) (p : Program) :
    let i : Interpreter := ⟨.builtin, config⟩
    let run := i.run p
    let told := run.events.filterMap Event.severity? ++
      if run.failure?.isSome then [Severity.error] else []
    ((i.evaluate p).map Entry.severity = if told = [] then [.info] else told) ∧
    (told = [] → i.evaluate p = [⟨.info, config.noOutput⟩]) ∧
    run.log = run.events.filterMap Event.entry? ++ run.failure?.toList.map Failure.entry ∧
    ∀ f, run.failure? = some f →
      (∃ word, f = .unknownCommand word) ∨ f = .divisionByZero ∨
      (∃ name expected got, f = .arityMismatch name expected got) ∨
      f = .depthExceeded config.maxDepth := by
  intro i run told
  have hlog : run.log =
      run.events.filterMap Event.entry? ++ run.failure?.toList.map Failure.entry :=
    log_eq_entries config p
  have hsev : run.log.map Entry.severity = told := by
    rw [hlog, List.map_append, Event.map_severity_filterMap_entry?]
    show _ = _ ++ _
    cases run.failure? <;> rfl
  have hnil : told = [] ↔ run.log = [] := by rw [← hsev, List.map_eq_nil_iff]
  have heval : i.evaluate p = if run.log = [] then [⟨.info, config.noOutput⟩] else run.log := rfl
  refine ⟨?_, ?_, hlog, fun f hf => (fails_of_failure? hf).cases_of_builtins Registry.builtin_ofBuiltins⟩
  · rw [heval]
    by_cases h : run.log = []
    · rw [if_pos h, if_pos (hnil.mpr h)]
      rfl
    · rw [if_neg h, if_neg (mt hnil.mp h), hsev]
  · intro h
    rw [heval, if_pos (hnil.mp h)]

/-- the third line is never dispatched: the quotient inside it has one operand, which is the value of a
print that has logged by then -/
theorem Interpreter.evaluate_told_by_events_short_quotient :
    let i : Interpreter := ⟨.builtin, .default⟩
    let p := Program.lines ["add a b", "print warn w", "error div print x 0", "print never"]
    (i.run p).events = [.dispatching "add" [.text "a", .text "b"], .expanding .warn 1 [.text "w"],
      .dispatching "print" [.bool true], .expanding .print 2 [.text "x", .number .zero],
      .expanding .div 1 [.bool true], .halted 3] ∧
    (i.evaluate p).map Entry.severity = [.warning, .info, .info, .error] ∧
    ∃ name expected got, (i.run p).failure? = some (.arityMismatch name expected got) := by
  intro i p
  obtain ⟨hsev, -, -, hcause⟩ := evaluate_told_by_events .default p
  refine ⟨by decide +kernel, hsev.trans (by decide +kernel), ?_⟩
  have hfail : (i.run p).failure? = some (.arityMismatch .div 2 1) := by decide +kernel
  rcases hcause _ hfail with ⟨word, h⟩ | h | ⟨name, expected, got, h⟩ | h
  · cases h
  · cases h
  · exact ⟨name, expected, got, hfail.trans (congrArg some h)⟩
  · cases h

end LineScript
