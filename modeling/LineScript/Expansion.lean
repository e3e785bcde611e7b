import LineScript.Argument
import LineScript.Journal
import LineScript.Registry

/-!
# Expanding arguments

Arguments have no brackets.  An argument that names a registered command is called in place: the
arguments after it are expanded first, as many as the command takes, it is run on their values, and
its own value stands for all of them.  In `print add mul 2 3 4` the product is formed first, then the
sum, and `print` is given the one value 10.

* `Expansion`              what expanding some arguments gives;
* `Registry.expandWithin`  expands arguments until enough values are there or no argument is left, on
                           a machine with so much room;
* `Registry.expand`        the same where nothing is wanting.

A command of fixed arity takes as many values, or fewer if the arguments end; a variadic one takes
all that are left.  A stop inside ends the expansion, and its entry is left to whoever ends the line.

Before the operands of an inner command are looked for, room is made for as many values as its fixed
arity asks for, whether they are there or not.  If there is not that much room, or if a handler reads
an operand that is not there, the program that runs the script dies, and nothing is given.  What
`expand` gives is what the arguments mean: `expandWithin` gives the same or nothing
(`Registry.expandWithin_eq`), and it is known when (`Registry.isSome_expandWithin_iff`).
-/

namespace LineScript

/-- how many values there can ever be room for: one takes 24 bytes, and no buffer has more than
`2 ^ 63 - 1` -/
def mostRoom : Nat := 0x7FFFFFFFFFFFFFFF / 24

/-- how many arguments were taken, the values or the reply that stopped, and what was noted -/
structure Expansion where
  used : Nat
  result : Except Reply (List Value)
  journal : Journal

namespace Expansion

def nothing : Expansion := ⟨0, .ok [], .empty⟩

/-- one value, with the arguments it stands for and what was noted, in front of an expansion -/
def after (used : Nat) (v : Value) (journal : Journal) (e : Expansion) : Expansion :=
  ⟨used + e.used, e.result.map (v :: ·), journal ++ e.journal⟩

theorem used_after (used : Nat) (v : Value) (journal : Journal) (e : Expansion) :
    (after used v journal e).used = used + e.used := rfl

/-- with a value in front an expansion is stopped only if it is stopped without -/
theorem result_of_after {used : Nat} {v : Value} {journal : Journal} {e : Expansion}
    {values : List Value} (h : (after used v journal e).result = .ok values) :
    ∃ rest, e.result = .ok rest ∧ values = v :: rest := by
  simp only [after] at h
  cases he : e.result with
  | error reply =>
    rw [he] at h
    cases h
  | ok rest =>
    rw [he] at h
    cases h
    exact ⟨rest, rfl, rfl⟩

end Expansion

/-- what is left behind an argument is shorter, whatever is taken of it -/
theorem length_drop_lt_cons {α : Type} (a : α) (l : List α) (n : Nat) :
    (l.drop n).length < (a :: l).length := by
  simp only [List.length_drop, List.length_cons]
  omega

namespace Registry

def commandOf? (r : Registry) (arg : Argument) : Option Command :=
  arg.commandWord?.bind r.lookup?

theorem find?_of_commandOf? {r : Registry} {arg : Argument} {c : Command}
    (h : r.commandOf? arg = some c) : r.find? c.name = some c := by
  obtain ⟨word, -, hword⟩ := Option.bind_eq_some_iff.mp h
  exact (find?_of_lookup? hword).2

theorem commandOf?_word (r : Registry) (n : CommandName) :
    r.commandOf? (.word n.word) = r.find? n :=
  r.lookup?_word n

/-- a text between quotes calls nothing -/
theorem commandOf?_quoted (r : Registry) (s : String) : r.commandOf? (.quoted s) = none := rfl

/-- nor does a bound value that is no text -/
theorem commandOf?_bound (r : Registry) {v : Value} (h : ∀ s, v ≠ .text s) :
    r.commandOf? (.bound v) = none := by
  cases v with
  | text s => exact absurd rfl (h s)
  | number n => rfl
  | bool b => rfl

/-- expands arguments to the values that are wanted, as the program does with room for so many values;
what is called here stands at `depth` -/
def expandWithin (r : Registry) (room limit depth : Nat) (wanted : Arity) :
    List Argument → Option Expansion
  | [] => some .nothing
  | arg :: more =>
    if wanted.isFull then some .nothing
    else match r.commandOf? arg with
      | none => (r.expandWithin room limit depth wanted.pred more).map (.after 1 arg.value .empty)
      | some c =>
        if limit < depth then some ⟨1, .error (.failed (.depthExceeded limit)), .empty⟩
        else if room < c.arity.reserved then none
        else (r.expandWithin room limit (depth + 1) c.arity more).bind fun inner =>
          match inner.result with
          | .error reply => some ⟨inner.used + 1, .error reply, inner.journal⟩
          | .ok values =>
            (c.run? values).bind fun reply =>
              let called := inner.journal ++ .ofEvent (.expanding c.name depth values)
              if reply.stops then some ⟨inner.used + 1, .error reply, called⟩
              else
                (r.expandWithin room limit depth wanted.pred (more.drop inner.used)).map
                  (.after (inner.used + 1) reply.outcome.valueD
                    (called ++ .ofLog reply.outcome.entries))
termination_by args => args.length
decreasing_by
  · exact Nat.lt_succ_self more.length
  · exact Nat.lt_succ_self more.length
  · exact length_drop_lt_cons arg more _

/-- what arguments mean: their expansion where there is room for every command and no handler lacks an
operand -/
def expand (r : Registry) (limit depth : Nat) (wanted : Arity) : List Argument → Expansion
  | [] => .nothing
  | arg :: more =>
    if wanted.isFull then .nothing
    else match r.commandOf? arg with
      | none => .after 1 arg.value .empty (r.expand limit depth wanted.pred more)
      | some c =>
        if limit < depth then ⟨1, .error (.failed (.depthExceeded limit)), .empty⟩
        else
          let inner := r.expand limit (depth + 1) c.arity more
          match inner.result with
          | .error reply => ⟨inner.used + 1, .error reply, inner.journal⟩
          | .ok values =>
            let reply := c.run values
            let called := inner.journal ++ .ofEvent (.expanding c.name depth values)
            if reply.stops then ⟨inner.used + 1, .error reply, called⟩
            else
              .after (inner.used + 1) reply.outcome.valueD (called ++ .ofLog reply.outcome.entries)
                (r.expand limit depth wanted.pred (more.drop inner.used))
termination_by args => args.length
decreasing_by
  · exact Nat.lt_succ_self more.length
  · exact Nat.lt_succ_self more.length
  · exact length_drop_lt_cons arg more _

theorem expand_nil (r : Registry) (limit depth : Nat) (wanted : Arity) :
    r.expand limit depth wanted [] = .nothing := by
  rw [expand]

theorem expand_full (r : Registry) (limit depth : Nat) {wanted : Arity} (h : wanted.isFull)
    (args : List Argument) : r.expand limit depth wanted args = .nothing := by
  cases args <;> simp [expand, h]

end Registry

end LineScript
