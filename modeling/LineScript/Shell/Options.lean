/-!
# The arguments of the command line

Arguments are read from the left, and the first mistake ends the reading.  `--` ends the options;
`help` and `--help` in front of it ask for the usage text, and no option may follow them.  Whatever
is no option is the file of the program, of which there is at most one.

* `Options`               what the arguments ask for;
* `Invocation.ofArgs`     reads the arguments;
* `OptionError.message`   the text of a mistake;
* `usage`                 the usage text.
-/

namespace LineScript.Shell

/-! ## options -/

structure Options where
  file? : Option String
  stdin : Bool
  eval? : Option String
  raw : Bool
  maxDepth? : Option Nat
  verbose : Bool
deriving DecidableEq, Repr

def Options.blank : Options := ⟨none, false, none, false, none, false⟩

inductive OptionName where
  | stdin
  | raw
  | verbose
  | eval
  | maxDepth
deriving DecidableEq, Repr

def OptionName.ofArg? : String → Option OptionName
  | "--stdin" => some .stdin
  | "--raw" => some .raw
  | "-v" | "--verbose" => some .verbose
  | "-e" | "--eval" => some .eval
  | "--max-depth" => some .maxDepth
  | _ => none

/-- an option that wants a value takes the next argument, whatever it looks like -/
def OptionName.wantsValue : OptionName → Bool
  | .eval | .maxDepth => true
  | .stdin | .raw | .verbose => false

/-! ## mistakes -/

/-- why an option does not take a value -/
inductive BadValue where
  | duplicate
  | empty
  | invalidDigit
  | tooLarge
deriving DecidableEq, Repr

def BadValue.reason : BadValue → String
  | .duplicate => "duplicate values provided"
  | .empty => "cannot parse integer from empty string"
  | .invalidDigit => "invalid digit found in string"
  | .tooLarge => "number too large to fit in target type"

inductive OptionError where
  | unrecognized (arg : String)
  | noValue (arg : String)
  | badValue (arg value : String) (why : BadValue)
  /-- an option behind the request for help -/
  | afterHelp
deriving DecidableEq, Repr

/-- the text of a mistake; each but the last is a line of its own -/
def OptionError.message : OptionError → String
  | .unrecognized arg => "Unrecognized argument: " ++ arg ++ "\n"
  | .noValue arg => "No value provided for option '" ++ arg ++ "'.\n"
  | .badValue arg value why =>
    "Error parsing option '" ++ arg ++ "' with value '" ++ value ++ "': " ++ why.reason ++ "\n"
  | .afterHelp => "Trailing arguments are not allowed after `help`."

/-! ## limits -/

/-- the greatest limit that can be asked for: `2 ^ 64 - 1` -/
def greatestDepth : Nat := 0xFFFFFFFFFFFFFFFF

/-- reads on the digits of a limit, `n` having been read; the first character that does not fit
decides what is wrong -/
def readDepthFrom (n : Nat) : List Char → Except BadValue Nat
  | [] => .ok n
  | c :: cs =>
    if c.isDigit then
      let next := n * 10 + (c.toNat - '0'.toNat)
      if greatestDepth < next then .error .tooLarge else readDepthFrom next cs
    else .error .invalidDigit

/-- the limit that a text spells, with a plus sign in front or without -/
def readDepth (s : String) : Except BadValue Nat :=
  match s.toList with
  | [] => .error .empty
  | ['+'] => .error .invalidDigit
  | '+' :: cs => readDepthFrom 0 cs
  | cs => readDepthFrom 0 cs

/-! ## reading -/

/-- what has been read of the arguments so far, with the option that waits for its value as it was
written -/
structure Reading where
  options : Options
  help : Bool
  ended : Bool
  pending? : Option (OptionName × String)

inductive Invocation where
  | help
  | run (options : Options)
deriving DecidableEq, Repr

namespace Reading

def start : Reading := ⟨.blank, false, false, none⟩

def switch (r : Reading) : OptionName → Reading
  | .stdin => { r with options := { r.options with stdin := true } }
  | .raw => { r with options := { r.options with raw := true } }
  | .verbose => { r with options := { r.options with verbose := true } }
  | .eval | .maxDepth => r

/-- the value of an option; that the option was given before is found out first -/
def take (o : Options) (name : OptionName) (value : String) : Except BadValue Options :=
  match name with
  | .eval =>
    if o.eval?.isSome then .error .duplicate else .ok { o with eval? := some value }
  | .maxDepth =>
    if o.maxDepth?.isSome then .error .duplicate
    else (readDepth value).map fun depth => { o with maxDepth? := some depth }
  | .stdin | .raw | .verbose => .ok o

def withFile (r : Reading) (arg : String) : Except OptionError Reading :=
  if r.options.file?.isSome then .error (.unrecognized arg)
  else .ok { r with options := { r.options with file? := some arg } }

def step (r : Reading) (arg : String) : Except OptionError Reading :=
  match r.pending? with
  | some (name, written) =>
    match take r.options name arg with
    | .ok options => .ok { r with options := options, pending? := none }
    | .error why => .error (.badValue written arg why)
  | none =>
    if r.ended then r.withFile arg
    else if arg = "--help" ∨ arg = "help" then .ok { r with help := true }
    else if arg = "--" then .ok { r with ended := true }
    else if arg.toList.head? ≠ some '-' then r.withFile arg
    else if r.help then .error .afterHelp
    else match OptionName.ofArg? arg with
      | none => .error (.unrecognized arg)
      | some name =>
        if name.wantsValue then .ok { r with pending? := some (name, arg) }
        else .ok (r.switch name)

def finish (r : Reading) : Except OptionError Invocation :=
  match r.pending? with
  | some (_, written) => .error (.noValue written)
  | none => .ok (if r.help then .help else .run r.options)

end Reading

def Invocation.ofArgs (args : List String) : Except OptionError Invocation := do
  (← args.foldlM Reading.step .start).finish

/-! ## usage -/

def usageLines : List String :=
  ["Usage: eel [--stdin] [-e <eval>] [--raw] [--max-depth <max-depth>] [-v] [--] [<file>]",
    "",
    "Run Easily Extendable Language programs. "
      ++ "Starts an interactive prompt when no program source is given.",
    "",
    "Positional Arguments:",
    "  file              program file to run.",
    "",
    "Options:",
    "  --stdin           read the program from standard input.",
    "  -e, --eval        program text to run instead of a file; a literal `\\n`",
    "                    separates lines.",
    "  --raw             print log entries in their encoded `<code>,<message>` form.",
    "  --max-depth       deepest allowed chain of nested commands on one line.",
    "  -v, --verbose     log evaluation details to standard error.",
    "  --help, help      display usage information",
    ""]

def unlines (lines : List String) : String :=
  String.join (lines.map (· ++ "\n"))

def usage : String := unlines usageLines

def usageHint : String := "\nRun eel --help for more information.\n"

end LineScript.Shell
