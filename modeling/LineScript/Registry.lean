import LineScript.Command.Builtin

/-!
# Registries

A registry holds the commands that scripts can call, at most one under each name.  Registering a
command replaces the one of its name.

* `Registry.find?`      the command under a name, and `Registry.lookup?` under a word;
* `Registry.register`   puts a command under its name;
* `Registry.size`       the number of names that are taken;
* `Registry.empty`, `Registry.builtin`   the two registries to start from.
-/

namespace LineScript

/-- the command under each name, which bears that name itself -/
structure Registry where
  find? : CommandName → Option Command
  name_of_find : ∀ {n : CommandName} {c : Command}, find? n = some c → c.name = n

namespace Registry

/-- registries are told apart by what they hold -/
theorem ext {r s : Registry} (h : ∀ n, r.find? n = s.find? n) : r = s := by
  cases r
  cases s
  congr
  exact funext h

def empty : Registry where
  find? _ := none
  name_of_find h := by simp at h

def builtin : Registry where
  find? n := some n.builtin
  name_of_find h := by
    cases h
    rfl

def register (r : Registry) (c : Command) : Registry where
  find? n := if n = c.name then some c else r.find? n
  name_of_find {n d} h := by
    by_cases hn : n = c.name
    · rw [if_pos hn] at h
      cases h
      exact hn.symm
    · rw [if_neg hn] at h
      exact r.name_of_find h

def ofList (cs : List Command) : Registry :=
  cs.foldl register empty

/-! ## looking up -/

def lookup? (r : Registry) (word : String) : Option Command :=
  (CommandName.ofWord? word).bind r.find?

theorem lookup?_word (r : Registry) (n : CommandName) : r.lookup? n.word = r.find? n := by
  rw [lookup?, CommandName.ofWord?_word, Option.bind_some]

/-- a command that a word calls is registered under the name that is the word -/
theorem find?_of_lookup? {r : Registry} {word : String} {c : Command}
    (h : r.lookup? word = some c) : word = c.name.word ∧ r.find? c.name = some c := by
  obtain ⟨n, hn, hc⟩ := Option.bind_eq_some_iff.mp h
  rw [r.name_of_find hc]
  exact ⟨(CommandName.word_of_ofWord? hn).symm, hc⟩

def size (r : Registry) : Nat :=
  (CommandName.all.filter fun n => (r.find? n).isSome).length

def isEmpty (r : Registry) : Bool :=
  r.size == 0

theorem find?_builtin (n : CommandName) : builtin.find? n = some n.builtin := rfl

theorem find?_register (r : Registry) (c : Command) (n : CommandName) :
    (r.register c).find? n = if n = c.name then some c else r.find? n := rfl

end Registry

end LineScript
