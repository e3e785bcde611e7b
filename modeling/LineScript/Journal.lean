import LineScript.Command.Name
import LineScript.Log.Entry
import LineScript.Value

/-!
# Events and journals

While a script runs it is noted which commands are called and where it is halted.  An event of a
call holds the values that the command is called on; a reader of events is only told their number.

* `Event`     what is noted, with its level and message;
* `Journal`   entries and events of part of a run, each in the order in which they arose.
-/

namespace LineScript

/-! ## events -/

/-- how much a reader must ask for to be told of an event -/
inductive Level where
  | error
  | warn
  | info
  | debug
  | trace
deriving DecidableEq, Repr

namespace Level

def rank : Level → Nat
  | .error => 1
  | .warn => 2
  | .info => 3
  | .debug => 4
  | .trace => 5

def label : Level → String
  | .error => "ERROR"
  | .warn => "WARN"
  | .info => "INFO"
  | .debug => "DEBUG"
  | .trace => "TRACE"

end Level

inductive Event where
  /-- a command inside a line is called; a direct argument of the line has depth 1 -/
  | expanding (command : CommandName) (depth : Nat) (values : List Value)
  /-- the command that a line begins with is called -/
  | dispatching (word : String) (values : List Value)
  /-- the script ends with the line of this number -/
  | halted (line : Nat)
deriving DecidableEq, Repr

namespace Event

def level : Event → Level
  | .expanding .. => .trace
  | .dispatching .. => .debug
  | .halted _ => .info

def message : Event → String
  | .expanding .. => "expanding nested command"
  | .dispatching .. => "dispatching"
  | .halted _ => "program halted"

end Event

/-! ## journals -/

structure Journal where
  log : List Entry
  events : List Event
deriving DecidableEq, Repr

namespace Journal

def empty : Journal := ⟨[], []⟩

def ofLog (log : List Entry) : Journal := ⟨log, []⟩

def ofEvent (event : Event) : Journal := ⟨[], [event]⟩

instance : Append Journal where
  append a b := ⟨a.log ++ b.log, a.events ++ b.events⟩

theorem log_ofLog (log : List Entry) : (ofLog log).log = log := rfl

theorem log_ofEvent (event : Event) : (ofEvent event).log = [] := rfl

theorem append_log (a b : Journal) : (a ++ b).log = a.log ++ b.log := rfl

theorem append_events (a b : Journal) : (a ++ b).events = a.events ++ b.events := rfl

theorem ext {a b : Journal} (hl : a.log = b.log) (he : a.events = b.events) : a = b := by
  cases a
  cases b
  exact congr (congrArg mk hl) he

theorem empty_append (a : Journal) : empty ++ a = a := rfl

theorem append_empty (a : Journal) : a ++ empty = a :=
  ext (List.append_nil _) (List.append_nil _)

theorem append_assoc (a b c : Journal) : a ++ b ++ c = a ++ (b ++ c) :=
  ext (List.append_assoc _ _ _) (List.append_assoc _ _ _)

end Journal

end LineScript
