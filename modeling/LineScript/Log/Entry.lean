/-!
# Log entries

The output of a script is a list of entries, each a message with a severity.

* `Severity`       the four severities, numbered from 0; the last two end a script;
* `Entry`          a message with its severity;
* `Entry.render`   the entry as a person reads it.
-/

namespace LineScript

/-! ## severities -/

inductive Severity where
  | info
  | warning
  | error
  | halt
deriving DecidableEq, Repr

namespace Severity

def code : Severity → Nat
  | .info => 0
  | .warning => 1
  | .error => 2
  | .halt => 3

def ofCode? : Nat → Option Severity
  | 0 => some .info
  | 1 => some .warning
  | 2 => some .error
  | 3 => some .halt
  | _ => none

theorem ofCode?_code (s : Severity) : ofCode? s.code = some s := by
  cases s <;> rfl

theorem ofCode?_eq_some_iff {n : Nat} {s : Severity} : ofCode? n = some s ↔ n = s.code := by
  constructor
  · intro h
    unfold ofCode? at h
    split at h <;> simp_all [code]
    all_goals subst h; rfl
  · rintro rfl
    exact ofCode?_code s

end Severity

/-! ## entries -/

structure Entry where
  severity : Severity
  message : String
deriving DecidableEq, Repr

/-- an entry as a person reads it; only a halt may have nothing to say -/
def Entry.render (e : Entry) : String :=
  match e.severity with
  | .info => e.message
  | .warning => "WARNING: " ++ e.message
  | .error => "ERROR: " ++ e.message
  | .halt => if e.message = "" then "Execution Halted." else "Execution Halted: " ++ e.message

end LineScript
