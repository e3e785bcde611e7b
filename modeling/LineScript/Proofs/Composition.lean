import LineScript.Proofs.Threading

/-!
# Programs one behind the other

Lines know nothing of each other, so the run of two lists of lines is the run of the first and then,
unless a line stopped it, the run of the second with its line numbers moved on.

* `Interpreter.runLines_append`   for lines that are trimmed and numbered;
* `Interpreter.log_append`        for the log of a program, before the word for no output;
* `Interpreter.haltLine?_append`  for the line that stopped it.

Neither depends on what was logged before (`Interpreter.programs_compose`).
-/

namespace LineScript

/-! ## numbers moved on -/

/-- something with a number, moved on by so many lines -/
def moveOn {α : Type} (count : Nat) (numbered : Nat × α) : Nat × α :=
  (count + numbered.1, numbered.2)

theorem effectiveFrom_add (k first : Nat) (lines : List String) :
    effectiveFrom (k + first) lines = (effectiveFrom first lines).map (moveOn k) := by
  induction lines generalizing first with
  | nil => rfl
  | cons line lines ih =>
    rw [effectiveFrom_cons, effectiveFrom_cons, List.map_append, Nat.add_assoc, ih]
    split <;> rfl

theorem effective_append (a b : List String) :
    (Program.lines (a ++ b)).effective =
      (Program.lines a).effective ++ (Program.lines b).effective.map (moveOn a.length) := by
  unfold Program.effective
  simp only [Program.rawLines]
  rw [effectiveFrom_append, Nat.add_comm 1, effectiveFrom_add]

namespace Run

theorem log_append (a b : List (Nat × LineRun)) :
    (Run.mk (a ++ b)).log = (Run.mk a).log ++ (Run.mk b).log := by
  simp only [log, List.flatMap_append]

theorem haltLine?_append (a b : List (Nat × LineRun)) :
    (Run.mk (a ++ b)).haltLine? = (Run.mk a).haltLine?.or (Run.mk b).haltLine? := by
  simp only [haltLine?, List.find?_append]
  cases a.find? fun x => x.2.reply.stops <;> rfl

theorem log_moveOn (k : Nat) (ls : List (Nat × LineRun)) :
    (Run.mk (ls.map (moveOn k))).log = (Run.mk ls).log := by
  simp only [log, List.flatMap_map, moveOn]

theorem haltLine?_moveOn (k : Nat) (ls : List (Nat × LineRun)) :
    (Run.mk (ls.map (moveOn k))).haltLine? = (Run.mk ls).haltLine?.map (k + ·) := by
  induction ls with
  | nil => rfl
  | cons numbered ls ih =>
    obtain ⟨n, l⟩ := numbered
    rw [List.map_cons, moveOn, haltLine?_cons, haltLine?_cons, ih]
    split <;> rfl

end Run

namespace Interpreter

theorem runLines_moveOn (i : Interpreter) (k : Nat) (lines : List (Nat × String)) :
    i.runLines (lines.map (moveOn k)) = (i.runLines lines).map (moveOn k) := by
  induction lines with
  | nil => rfl
  | cons numbered lines ih =>
    obtain ⟨n, line⟩ := numbered
    rw [List.map_cons, moveOn]
    by_cases hs : (i.runLine line).reply.stops
    · rw [runLines_of_stops hs, runLines_of_stops hs]
      rfl
    · rw [runLines_of_goes_on hs, runLines_of_goes_on hs, ih]
      rfl

theorem runLines_append (i : Interpreter) (a b : List (Nat × String)) :
    i.runLines (a ++ b) =
      i.runLines a ++ if (Run.mk (i.runLines a)).halted then [] else i.runLines b := by
  induction a with
  | nil => rfl
  | cons numbered a ih =>
    obtain ⟨n, line⟩ := numbered
    rw [List.cons_append]
    by_cases hs : (i.runLine line).reply.stops
    · rw [runLines_of_stops hs, runLines_of_stops hs, Run.halted, Run.haltLine?_cons, if_pos hs]
      rfl
    · rw [runLines_of_goes_on hs, runLines_of_goes_on hs, Run.halted, Run.haltLine?_cons,
        if_neg hs, ih]
      rfl

section
variable (i : Interpreter) (a b : List String)

theorem run_append : i.run (.lines (a ++ b)) =
    ⟨(i.run (.lines a)).lines ++ if (i.run (.lines a)).halted then []
      else (i.run (.lines b)).lines.map (moveOn a.length)⟩ := by
  unfold run
  rw [effective_append, runLines_append, runLines_moveOn]

theorem log_append : (i.run (.lines (a ++ b))).log =
    if (i.run (.lines a)).halted then (i.run (.lines a)).log
    else (i.run (.lines a)).log ++ (i.run (.lines b)).log := by
  rw [run_append, Run.log_append]
  split
  · exact List.append_nil _
  · rw [Run.log_moveOn]

theorem haltLine?_append : (i.run (.lines (a ++ b))).haltLine? =
    (i.run (.lines a)).haltLine?.or ((i.run (.lines b)).haltLine?.map (a.length + ·)) := by
  rw [run_append, Run.haltLine?_append]
  cases h : (i.run (.lines a)).haltLine? with
  | none =>
    rw [Run.halted, h, if_neg (by simp), Run.haltLine?_moveOn]
  | some n => rfl

theorem halted_append : (i.run (.lines (a ++ b))).halted =
    ((i.run (.lines a)).halted || (i.run (.lines b)).halted) := by
  rw [Run.halted, haltLine?_append, Option.isSome_or, Option.isSome_map]
  rfl

end

/-- **Programs compose line by line.**  The log of lines behind other lines is the log of the first if
these are halted, and otherwise the two logs one behind the other; it is halted if either is; and the
word for no output stands for a log that is empty at the end.  Lines and programs only add to the
journal they are given, and what they add does not depend on it. -/
theorem programs_compose (i : Interpreter) (a b : List String) :
    ((i.run (.lines (a ++ b))).log =
      if (i.run (.lines a)).halted then (i.run (.lines a)).log
      else (i.run (.lines a)).log ++ (i.run (.lines b)).log) ∧
    ((i.run (.lines (a ++ b))).halted =
      ((i.run (.lines a)).halted || (i.run (.lines b)).halted)) ∧
    (i.evaluate (.lines a) =
      if (i.run (.lines a)).log = [] then [⟨.info, i.config.noOutput⟩]
      else (i.run (.lines a)).log) ∧
    (∀ j line, i.runLineOn j line = (i.runLine line).onto j) ∧
    ∀ j, i.runOn j (.lines a) = (j ++ (i.run (.lines a)).journal, (i.run (.lines a)).halted) :=
  ⟨i.log_append a b, i.halted_append a b, rfl, i.runLineOn_eq, fun j => i.runOn_eq j (.lines a)⟩

end Interpreter

end LineScript
