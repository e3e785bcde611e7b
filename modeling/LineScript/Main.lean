import LineScript.Shell.Session

/-!
# The program

Reads what the command line asks for, prints the report and exits with its status.  What the report
says is decided elsewhere; here are only the reading and the printing.
-/

namespace LineScript.Shell

/-! ## reading -/

/-- a mistake of the system, by its number, which may come with a minus sign, and its text -/
def ReadError.ofSystem (code : UInt32) (text : String) : ReadError :=
  match code.toInt32.toInt.natAbs with
  | 2 => .noSuchFile
  | 20 => .notDirectory
  | 21 => .isDirectory
  | 36 => .nameTooLong
  | n => .other (text.capitalize ++ " (os error " ++ toString n ++ ")")

def ReadError.ofIO : IO.Error → ReadError
  | .noFileOrDirectory _ code text => .ofSystem code text
  | .inappropriateType _ code text => .ofSystem code text
  | .invalidArgument _ code text => .ofSystem code text
  | .permissionDenied _ code text => .ofSystem code text
  | .otherError code text => .ofSystem code text
  | e => .other (toString e)

def readFile (path : String) : IO (Except ReadError (List UInt8)) := do
  try
    let bytes ← IO.FS.readBinFile path
    return .ok bytes.toList
  catch e =>
    return .error (.ofIO e)

/-- the bytes up to the next line feed, if there are any -/
partial def readLine (input : IO.FS.Stream) (line : ByteArray) : IO (Option ByteArray) := do
  let next ← input.read 1
  match next.toList with
  | [] => return if line.isEmpty then none else some line
  | b :: _ => if b = 0x0A then return some line else readLine input (line.push b)

/-- what a source needs read, and nothing else -/
def Source.surroundings (filter? : Option String) : Source → IO Surroundings
  | .file path => do
    let bytes ← readFile path
    return ⟨fun _ => bytes, [], filter?⟩
  | .stdin => do
    let bytes ← (← IO.getStdin).readBinToEnd
    return ⟨fun _ => .error .noSuchFile, bytes.toList, filter?⟩
  | _ => return ⟨fun _ => .error .noSuchFile, [], filter?⟩

/-! ## printing -/

def write (stdout stderr : String) : IO Unit := do
  IO.eprint stderr
  IO.print stdout
  (← IO.getStdout).flush

def Report.emit (r : Report) : IO UInt32 := do
  write r.stdout r.stderr
  return r.exit.toUInt32

/-- answers line by line, as the lines come in -/
partial def Session.answer (s : Settings) (input : IO.FS.Stream) : IO UInt32 := do
  IO.eprint (lineNote s)
  match ← readLine input .empty with
  | none => return 0
  | some line =>
    match Turn.ofLine s line.toList with
    | .quit => return 0
    | .broken =>
      IO.eprint brokenSession
      return 1
    | .output out err =>
      write out err
      Session.answer s input

end LineScript.Shell

open LineScript.Shell in
def main (args : List String) : IO UInt32 := do
  match Invocation.ofArgs args with
  | .error e => (Report.badOptions e).emit
  | .ok .help => Report.help.emit
  | .ok (.run o) =>
    let filter? ← IO.getEnv "RUST_LOG"
    let settings := Settings.ofOptions o filter?
    match Source.ofOptions o with
    | .session =>
      write (Session.greeting settings) (Session.setupNote settings)
      Session.answer settings (← IO.getStdin)
    | source => (source.report settings (← source.surroundings filter?)).emit
