import LineScript.Interpreter
import LineScript.Shell.Diagnostics
import LineScript.Shell.Folder
import LineScript.Shell.Options

/-!
# What a program run leaves

* `Report`           an exit status with the two outputs;
* `Report.ofLog`     prints a log, and fails if it holds an error;
* `Source`           where the program comes from, the first of those that are given;
* `Report.ofBytes`   runs bytes that were read, if they are a text.
-/

namespace LineScript.Shell

/-! ## reports -/

structure Report where
  exit : Nat
  stdout : String
  stderr : String
deriving DecidableEq, Repr

namespace Report

def failure (message : String) : Report := ⟨1, "", "Error: " ++ message ++ "\n"⟩

def failureBecause (message cause : String) : Report :=
  failure (message ++ "\n\nCaused by:\n    " ++ cause)

def badOptions (e : OptionError) : Report := ⟨1, "", e.message ++ usageHint⟩

def help : Report := ⟨0, usage, ""⟩

/-- the status tells whether an error was logged; a halt is none -/
def exitOf (log : List Entry) : Nat :=
  if log.any (·.severity == .error) then 1 else 0

/-- an entry as it is printed: as it goes on the wire, or for a person -/
def printed (raw : Bool) (e : Entry) : String :=
  if raw then e.encode else e.render

def ofLog (raw : Bool) (threshold : Threshold) (events : List Event) (log : List Entry) : Report :=
  ⟨exitOf log, unlines (log.map (printed raw)), unlines (threshold.report events)⟩

end Report

/-! ## sources -/

/-- what the command line asks for, as an interpreter and the way to print -/
structure Settings where
  interpreter : Interpreter
  raw : Bool
  threshold : Threshold
  promptThreshold : Threshold

def Settings.ofOptions (o : Options) (filter? : Option String) : Settings where
  interpreter := ⟨.builtin, { Config.default with
    maxDepth := o.maxDepth?.getD Config.default.maxDepth }⟩
  raw := o.raw
  threshold := .choose filter? o.verbose
  promptThreshold := .ofPrompt filter?

inductive Source where
  | inline (text : String)
  | file (path : String)
  | stdin
  | session
deriving DecidableEq, Repr

/-- inline text counts for more than a file, and a file for more than standard input -/
def Source.ofOptions (o : Options) : Source :=
  match o.eval?, o.file? with
  | some text, _ => .inline text
  | none, some path => .file path
  | none, none => if o.stdin then .stdin else .session

/-- the program of an inline text, in which two characters can stand for a line feed -/
def inlineProgram (text : String) : Program :=
  .source (Text.breakEscapes text)

namespace Report

/-- with the commands of the command line every program has a run (`Settings.runWithin_ofOptions`) -/
def ofProgram (s : Settings) (p : Program) : Report :=
  let run := s.interpreter.run p
  ofLog s.raw s.threshold run.events (s.interpreter.withSentinel run.log)

def ofBytes (s : Settings) (bytes : List UInt8) : Report :=
  match Program.ofBytes bytes with
  | .ok p => ofProgram s p
  | .error d => failure d.message

def ofFile (s : Settings) (path : String) : Except ReadError (List UInt8) → Report
  | .ok bytes => ofBytes s bytes
  | .error e => failureBecause ("failed to read " ++ path) e.message

end Report

end LineScript.Shell
