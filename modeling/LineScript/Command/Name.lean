/-!
# The names of the commands

A closed list: a script can call no command but these, and a registry says which of them it has.

* `CommandName.all`       every name, in the order of the manual;
* `CommandName.word`      the word that calls a command, and `CommandName.ofWord?` back;
* `CommandName.title`     the word with a capital.
-/

namespace LineScript

inductive CommandName where
  | print
  | warn
  | error
  | stop
  | add
  | sub
  | mul
  | div
  | pow
  | equals
  | not
deriving DecidableEq, Repr

namespace CommandName

def all : List CommandName :=
  [.print, .warn, .error, .stop, .add, .sub, .mul, .div, .pow, .equals, .not]

theorem mem_all (n : CommandName) : n ∈ all := by
  cases n <;> decide

theorem all_nodup : all.Nodup := by
  decide

/-! ## words -/

def word : CommandName → String
  | .print => "print"
  | .warn => "warn"
  | .error => "error"
  | .stop => "stop"
  | .add => "add"
  | .sub => "sub"
  | .mul => "mul"
  | .div => "div"
  | .pow => "pow"
  | .equals => "equals"
  | .not => "not"

/-- the command that a word calls; case and white space count -/
def ofWord? (w : String) : Option CommandName :=
  all.find? fun n => n.word == w

theorem word_of_ofWord? {w : String} {n : CommandName} (h : ofWord? w = some n) : n.word = w := by
  simpa using List.find?_some h

theorem word_injective {m n : CommandName} : m.word = n.word → m = n := by
  cases m <;> cases n <;> decide

theorem ofWord?_word (n : CommandName) : ofWord? n.word = some n := by
  cases h : ofWord? n.word with
  | none => exact absurd (List.find?_eq_none.mp h n (mem_all n)) (by simp)
  | some m => rw [word_injective (word_of_ofWord? h)]

def title (n : CommandName) : String :=
  n.word.capitalize

end CommandName

end LineScript
