import LineScript.Shell.Report
import LineScript.Text.Draft

/-!
# Interactive sessions

A session greets and then runs every line that it is given as a program of its own.

* `Turn.ofTyped`     what a line does, once it is typed;
* `Turn.ofLine`      what one line of input does;
* `Session.report`   a whole session, given all of its input;
* `respond`          what the command line does, given all that it may read.
-/

namespace LineScript.Shell

/-! ## turns -/

inductive Turn where
  /-- the line is run, or was blank: more output, and the session goes on -/
  | output (stdout stderr : String)
  | quit
  /-- the line is no text -/
  | broken
deriving DecidableEq, Repr

def quitWord : String := ":quit"

/-- a line that has been typed; entries are always printed for a person -/
def Turn.ofTyped (s : Settings) (text : String) : Turn :=
  let line := Text.trim text
  if line = quitWord then .quit
  else if line = "" then .output "" ""
  else
    let r := Report.ofProgram { s with raw := false } (.source line)
    .output r.stdout r.stderr

/-- a line of input, in which backspaces take back what was typed -/
def Turn.ofLine (s : Settings) (bytes : List UInt8) : Turn :=
  match Text.Utf8.decode bytes with
  | .error _ => .broken
  | .ok text => .ofTyped s (Text.typed text)

def brokenSession : String :=
  "Error: interactive session failed\n\nCaused by:\n"
    ++ "    0: stream did not contain valid UTF-8\n    1: stream did not contain valid UTF-8\n"

/-! ## sessions -/

namespace Session

/-- the lines of the input, without their line feeds; what follows the last one is a line if it is
not empty -/
def inputLines (bytes : List UInt8) : List (List UInt8) :=
  let pieces := bytes.splitOn 0x0A
  if pieces.getLast? = some [] then pieces.dropLast else pieces

/-- a note of the prompt, which is for those who want details of everything -/
def note (s : Settings) (text : String) : String :=
  if s.promptThreshold.reaches .debug then diagnosticLine .debug "rustyline" text ++ "\n" else ""

def setupNote (s : Settings) : String := note s "GraphemeClusterMode: WcWidth"

def lineNote (s : Settings) : String := note s "stdin is not a tty"

def turns (s : Settings) : List (List UInt8) → Report
  | [] => ⟨0, "", lineNote s⟩
  | line :: lines =>
    match Turn.ofLine s line with
    | .quit => ⟨0, "", lineNote s⟩
    | .broken => ⟨1, "", lineNote s ++ brokenSession⟩
    | .output out err =>
      let rest := turns s lines
      ⟨rest.exit, out ++ rest.stdout, lineNote s ++ err ++ rest.stderr⟩

def greeting (s : Settings) : String :=
  s.interpreter.banner ++ "\n"

def report (s : Settings) (stdin : List UInt8) : Report :=
  let rest := turns s (inputLines stdin)
  ⟨rest.exit, greeting s ++ rest.stdout, setupNote s ++ rest.stderr⟩

end Session

/-! ## the command line -/

/-- what the command line may read besides its arguments -/
structure Surroundings where
  readFile : String → Except ReadError (List UInt8)
  stdin : List UInt8
  filter? : Option String

/-- the report of a source; a source that is not the one asked for is not looked at -/
def Source.report (s : Settings) (w : Surroundings) : Source → Report
  | .inline text => .ofProgram s (inlineProgram text)
  | .file path => .ofFile s path (w.readFile path)
  | .stdin => .ofBytes s w.stdin
  | .session => Session.report s w.stdin

def respond (args : List String) (w : Surroundings) : Report :=
  match Invocation.ofArgs args with
  | .error e => .badOptions e
  | .ok .help => .help
  | .ok (.run o) => (Source.ofOptions o).report (.ofOptions o w.filter?) w

end LineScript.Shell
