import LineScript.Journal

/-!
# Diagnostics

Events are written to standard error, those up to a threshold.

* `Threshold`           the highest level that is shown, if any is;
* `Threshold.choose`    from the filter in the environment, or else from the options;
* `Threshold.ofPrompt`  the threshold of the prompt, which is a program of its own to a filter;
* `Event.line`          an event as a line.
-/

namespace LineScript

/-! ## thresholds -/

/-- the highest level that is shown -/
abbrev Threshold := Option Level

namespace Threshold

def ofName? : String → Option Threshold
  | "off" => some none
  | "error" => some (some .error)
  | "warn" => some (some .warn)
  | "info" => some (some .info)
  | "debug" => some (some .debug)
  | "trace" => some (some .trace)
  | _ => none

/-- a filter is a level, or the name of the program with its level; any other filter is about other
programs and shows nothing of this one -/
def ofFilter (filter : String) : Threshold :=
  let name := if filter.startsWith "eel=" then (filter.drop 4).copy else filter
  (ofName? name.toLower).getD none

/-- a filter counts for more than the wish for details -/
def choose (filter? : Option String) (verbose : Bool) : Threshold :=
  match filter? with
  | some filter => ofFilter filter
  | none => some (if verbose then .debug else .warn)

/-- a filter that names this program leaves the prompt out, and without a filter it is silent -/
def ofPrompt (filter? : Option String) : Threshold :=
  match filter? with
  | some filter => if filter.startsWith "eel=" then none else ofFilter filter
  | none => none

def reaches (t : Threshold) (level : Level) : Bool :=
  t.any fun highest => level.rank ≤ highest.rank

def shows (t : Threshold) (e : Event) : Bool := t.reaches e.level

end Threshold

/-! ## lines -/

/-- a line that says where it comes from, levels aligned to the right -/
def diagnosticLine (level : Level) (origin text : String) : String :=
  "".pushn ' ' (5 - level.label.length) ++ level.label ++ " " ++ origin ++ ": " ++ text

namespace Event

def origin : Event → String
  | .expanding .. => "eel::expander"
  | .dispatching .. | .halted _ => "eel::interpreter"

/-- what an event says beside its message; of the values only the number -/
def fields : Event → String
  | .expanding command depth values =>
    " command=\"" ++ command.word ++ "\" depth=" ++ toString depth ++ " args="
      ++ toString values.length
  | .dispatching word values => " command=\"" ++ word ++ "\" args=" ++ toString values.length
  | .halted line => " line=" ++ toString line

def line (e : Event) : String :=
  diagnosticLine e.level e.origin (e.message ++ e.fields)

end Event

def Threshold.report (t : Threshold) (events : List Event) : List String :=
  (events.filter t.shows).map Event.line

end LineScript
