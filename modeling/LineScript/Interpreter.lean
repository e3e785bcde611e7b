import LineScript.Expansion
import LineScript.Log.Wire
import LineScript.Program

/-!
# Running programs

An interpreter is a registry with a configuration.  It keeps nothing between lines: a line is run on
its own, and a program line by line until one of them stops.

* `Interpreter.dispatch?`        calls a command by its word;
* `Interpreter.runLineWithin`    runs one line;
* `Interpreter.runWithin`        runs the lines of a program, up to the first that stops;
* `Interpreter.evaluateWithin`   the log of a program, which is never empty;
* `Interpreter.parseWithin`      that log on the wire.

These are what is asked of an interpreter.  They take the room that the machine has for values, and give
nothing where the program that runs the script dies (`Registry.expandWithin`).  Beside each stands what
it gives if it gives anything: `dispatch`, `runLine`, `run`, `evaluate` and `parse`
(`Interpreter.runLineWithin_eq_some_iff`, `Interpreter.runWithin_eq_some_iff`).  With the built-in
commands nothing is ever wanting, and the two are the same (`Interpreter.runWithin_of_builtin`).
-/

namespace LineScript

/-! ## settings -/

structure Config where
  /-- the deepest that a command may stand inside others on one line -/
  maxDepth : Nat
  /-- what is logged for a program that logs nothing -/
  noOutput : String
deriving DecidableEq, Repr

def Config.default : Config := ⟨64, "no output"⟩

structure Interpreter where
  registry : Registry
  config : Config

/-! ## what is left of a run -/

/-- the reply of the line's own command, and what was noted before it -/
structure LineRun where
  reply : Reply
  journal : Journal

/-- what a line adds to the log; the entry of the reply comes last -/
def LineRun.entries (l : LineRun) : List Entry :=
  l.journal.log ++ l.reply.outcome.entries

/-- the lines that were run, with their numbers -/
structure Run where
  lines : List (Nat × LineRun)

namespace Run

def log (r : Run) : List Entry :=
  r.lines.flatMap fun (_, l) => l.entries

/-- the number of the line that stopped the run, if one did -/
def haltLine? (r : Run) : Option Nat :=
  (r.lines.find? fun (_, l) => l.reply.stops).map (·.1)

/-- a line that stops is noted as the end of the script -/
def events (r : Run) : List Event :=
  r.lines.flatMap fun (n, l) => l.journal.events ++ if l.reply.stops then [.halted n] else []

theorem log_cons (n : Nat) (l : LineRun) (ls : List (Nat × LineRun)) :
    (Run.mk ((n, l) :: ls)).log = l.entries ++ (Run.mk ls).log := rfl

theorem haltLine?_cons (n : Nat) (l : LineRun) (ls : List (Nat × LineRun)) :
    (Run.mk ((n, l) :: ls)).haltLine? =
      if l.reply.stops then some n else (Run.mk ls).haltLine? := by
  cases h : l.reply.stops <;> simp [haltLine?, h]

theorem events_cons (n : Nat) (l : LineRun) (ls : List (Nat × LineRun)) :
    (Run.mk ((n, l) :: ls)).events = l.journal.events
      ++ (if l.reply.stops then [.halted n] else []) ++ (Run.mk ls).events := rfl

end Run

namespace Interpreter

def default : Interpreter := ⟨.builtin, .default⟩

/-! ## lines -/

def dispatch? (i : Interpreter) (word : String) (values : List Value) : Option LineRun :=
  match i.registry.lookup? word with
  | some c => (c.run? values).map fun reply => ⟨reply, .ofEvent (.dispatching word values)⟩
  | none => some ⟨.failed (.unknownCommand word), .empty⟩

/-- runs a line, given as its words: the arguments are expanded only if the first word calls a
command -/
def runWordsWithin (i : Interpreter) (room : Nat) : List String → Option LineRun
  | [] => some ⟨.done .nothing, .empty⟩
  | word :: rest =>
    match i.registry.lookup? word with
    | none => i.dispatch? word []
    | some _ =>
      (i.registry.expandWithin room i.config.maxDepth 1 .variadic (rest.map Argument.ofWord)).bind
        fun e => match e.result with
          | .error reply => some ⟨reply, e.journal⟩
          | .ok values =>
            (i.dispatch? word values).map fun own => ⟨own.reply, e.journal ++ own.journal⟩

def runLineWithin (i : Interpreter) (room : Nat) (line : String) : Option LineRun :=
  i.runWordsWithin room (Text.words line)

/-! ### where nothing is wanting -/

/-- what `dispatch?` gives, if it gives anything -/
def dispatch (i : Interpreter) (word : String) (values : List Value) : LineRun :=
  match i.registry.lookup? word with
  | some c => ⟨c.run values, .ofEvent (.dispatching word values)⟩
  | none => ⟨.failed (.unknownCommand word), .empty⟩

def expand (i : Interpreter) (args : List Argument) : Expansion :=
  i.registry.expand i.config.maxDepth 1 .variadic args

def runWords (i : Interpreter) : List String → LineRun
  | [] => ⟨.done .nothing, .empty⟩
  | word :: rest =>
    match i.registry.lookup? word with
    | none => i.dispatch word []
    | some _ =>
      let e := i.expand (rest.map Argument.ofWord)
      match e.result with
      | .error reply => ⟨reply, e.journal⟩
      | .ok values =>
        let own := i.dispatch word values
        ⟨own.reply, e.journal ++ own.journal⟩

/-- what `runLineWithin` gives, if it gives anything -/
def runLine (i : Interpreter) (line : String) : LineRun :=
  i.runWords (Text.words line)

theorem dispatch_of_lookup {i : Interpreter} {word : String} {c : Command}
    (h : i.registry.lookup? word = some c) (values : List Value) :
    i.dispatch word values = ⟨c.run values, .ofEvent (.dispatching word values)⟩ := by
  rw [dispatch, h]

theorem dispatch_of_unknown {i : Interpreter} {word : String}
    (h : i.registry.lookup? word = none) (values : List Value) :
    i.dispatch word values = ⟨.failed (.unknownCommand word), .empty⟩ := by
  rw [dispatch, h]

section
variable {i : Interpreter} {word : String} {c : Command} {rest : List String}

theorem runWords_of_unknown (h : i.registry.lookup? word = none) :
    i.runWords (word :: rest) = ⟨.failed (.unknownCommand word), .empty⟩ := by
  rw [runWords, h]
  exact dispatch_of_unknown h []

/-- a stop among the arguments is the reply of the line -/
theorem runWords_of_error (h : i.registry.lookup? word = some c) {reply : Reply}
    (he : (i.expand (rest.map Argument.ofWord)).result = .error reply) :
    i.runWords (word :: rest) = ⟨reply, (i.expand (rest.map Argument.ofWord)).journal⟩ := by
  rw [runWords, h]
  simp only [he]

/-- without a stop among the arguments the command of the line is run on their values -/
theorem runWords_of_ok (h : i.registry.lookup? word = some c) {values : List Value}
    (he : (i.expand (rest.map Argument.ofWord)).result = .ok values) :
    i.runWords (word :: rest) = ⟨c.run values,
      (i.expand (rest.map Argument.ofWord)).journal ++ .ofEvent (.dispatching word values)⟩ := by
  rw [runWords, h]
  simp only [he, dispatch_of_lookup h]

end

/-! ## programs -/

def runLinesWithin (i : Interpreter) (room : Nat) :
    List (Nat × String) → Option (List (Nat × LineRun))
  | [] => some []
  | (n, line) :: more =>
    (i.runLineWithin room line).bind fun ran =>
      if ran.reply.stops then some [(n, ran)]
      else (i.runLinesWithin room more).map ((n, ran) :: ·)

def runWithin (i : Interpreter) (room : Nat) (p : Program) : Option Run :=
  (i.runLinesWithin room p.effective).map Run.mk

/-- a log with something in it: an empty one is replaced by the word for no output -/
def withSentinel (i : Interpreter) (log : List Entry) : List Entry :=
  if log = [] then [⟨.info, i.config.noOutput⟩] else log

def evaluateWithin (i : Interpreter) (room : Nat) (p : Program) : Option (List Entry) :=
  (i.runWithin room p).map fun run => i.withSentinel run.log

def parseWithin (i : Interpreter) (room : Nat) (p : Program) : Option (List String) :=
  (i.evaluateWithin room p).map fun log => log.map Entry.encode

/-! ### where nothing is wanting -/

def runLines (i : Interpreter) : List (Nat × String) → List (Nat × LineRun)
  | [] => []
  | (n, line) :: more =>
    let ran := i.runLine line
    (n, ran) :: if ran.reply.stops then [] else i.runLines more

/-- what `runWithin` gives, if it gives anything -/
def run (i : Interpreter) (p : Program) : Run :=
  ⟨i.runLines p.effective⟩

/-- programs with the same lines run the same -/
theorem run_eq_of_rawLines (i : Interpreter) {p q : Program} (h : p.rawLines = q.rawLines) :
    i.run p = i.run q := by
  rw [run, run, Program.effective, Program.effective, h]

theorem runLines_of_stops {i : Interpreter} {n : Nat} {line : String}
    (h : (i.runLine line).reply.stops) (more : List (Nat × String)) :
    i.runLines ((n, line) :: more) = [(n, i.runLine line)] := by
  rw [runLines]
  simp only [h, if_true]

theorem runLines_of_goes_on {i : Interpreter} {n : Nat} {line : String}
    (h : ¬(i.runLine line).reply.stops) (more : List (Nat × String)) :
    i.runLines ((n, line) :: more) = (n, i.runLine line) :: i.runLines more := by
  rw [runLines]
  simp only [if_neg h]

/-- what `evaluateWithin` gives, if it gives anything -/
def evaluate (i : Interpreter) (p : Program) : List Entry :=
  i.withSentinel (i.run p).log

/-- what `parseWithin` gives, if it gives anything -/
def parse (i : Interpreter) (p : Program) : List String :=
  (i.evaluate p).map Entry.encode

theorem evaluate_ne_nil (i : Interpreter) (p : Program) : i.evaluate p ≠ [] := by
  rw [evaluate, withSentinel]
  split
  · simp
  · assumption

/-! ## greeting -/

def banner (i : Interpreter) : String :=
  "eel " ++ version ++ " (" ++ toString i.registry.size ++ " commands, nesting limit "
    ++ toString i.config.maxDepth ++ "); :quit to exit"

end Interpreter

end LineScript
