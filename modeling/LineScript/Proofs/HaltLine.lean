import LineScript.Proofs.Composition
import LineScript.Proofs.Halting
import LineScript.Proofs.Retelling

/-!
# The line that halts a program

Lines are numbered before the idle ones are dropped, and a program ends with the first line that
stops.  So the number that is noted is the place of that line among the lines as they were given.

* `Interpreter.stopsOn`           whether a line, as it was given, stops a program;
* `Interpreter.haltLine?_run`     the line that halts a program is the first that stops it;
* `Interpreter.run_take`          the lines up to that one are run as the whole program is;
* `Interpreter.events_run`        the end of a program is noted behind all its calls, and once.

`Interpreter.halted_event_names_line` puts these together.
-/

namespace LineScript

/-- an event that tells of the end of a program -/
def Event.isHalted : Event → Bool
  | .halted _ => true
  | _ => false

namespace Interpreter

/-! ## the first line that stops -/

/-- a line, as it was given, does something and stops -/
def stopsOn (i : Interpreter) (line : String) : Bool :=
  isEffective (Text.trim line) && (i.runLine (Text.trim line)).reply.stops

theorem haltLine?_effectiveFrom (i : Interpreter) (first : Nat) (ls : List String) :
    (Run.mk (i.runLines (effectiveFrom first ls))).haltLine? =
      (ls.findIdx? i.stopsOn).map (first + ·) := by
  induction ls generalizing first with
  | nil => rfl
  | cons line ls ih =>
    have hmore : ((ls.findIdx? i.stopsOn).map fun k => k + 1).map (first + ·) =
        (Run.mk (i.runLines (effectiveFrom (first + 1) ls))).haltLine? := by
      rw [ih, Option.map_map]
      congr 1
      funext k
      show first + (k + 1) = first + 1 + k
      omega
    rw [effectiveFrom_cons, List.findIdx?_cons]
    by_cases he : isEffective (Text.trim line)
    · rw [if_pos he, List.singleton_append]
      by_cases hs : (i.runLine (Text.trim line)).reply.stops
      · have hstop : i.stopsOn line := by simp [stopsOn, he, hs]
        rw [runLines_of_stops hs, Run.haltLine?_cons, if_pos hs, if_pos hstop]
        rfl
      · have hstop : ¬i.stopsOn line := by simp [stopsOn, hs]
        rw [runLines_of_goes_on hs, Run.haltLine?_cons, if_neg hs, if_neg hstop, hmore]
    · have hstop : ¬i.stopsOn line := by simp [stopsOn, he]
      rw [if_neg he, if_neg hstop, hmore, List.nil_append]

theorem haltLine?_run (i : Interpreter) (p : Program) :
    (i.run p).haltLine? = (p.rawLines.findIdx? i.stopsOn).map (1 + ·) :=
  i.haltLine?_effectiveFrom 1 p.rawLines

theorem halted_run (i : Interpreter) (p : Program) :
    (i.run p).halted = p.rawLines.any i.stopsOn := by
  rw [Run.halted, haltLine?_run, Option.isSome_map, List.findIdx?_isSome]

section
variable {i : Interpreter} {p : Program} {n : Nat}

/-- the line that halts a program stops it, and no line in front of it does -/
theorem exists_of_haltLine? (h : (i.run p).haltLine? = some n) :
    ∃ k line, n = k + 1 ∧ p.rawLines[k]? = some line ∧ i.stopsOn line ∧
      ¬(p.rawLines.take k).any i.stopsOn := by
  rw [haltLine?_run] at h
  obtain ⟨k, hk, rfl⟩ := Option.map_eq_some_iff.mp h
  obtain ⟨hlt, hstop, hbefore⟩ := List.findIdx?_eq_some_iff_getElem.mp hk
  refine ⟨k, p.rawLines[k], Nat.add_comm 1 k, List.getElem?_eq_getElem hlt, hstop, ?_⟩
  rw [List.any_eq_true]
  rintro ⟨line, hmem, hline⟩
  obtain ⟨j, hj, rfl⟩ := List.mem_take_iff_getElem.mp hmem
  exact hbefore j (by omega) hline

/-- so many lines halt exactly if the line that halts the program is among them -/
theorem halted_take_iff (h : (i.run p).haltLine? = some n) (m : Nat) :
    (i.run (.lines (p.rawLines.take m))).halted ↔ n ≤ m := by
  obtain ⟨k, line, rfl, hline, hstop, hbefore⟩ := exists_of_haltLine? h
  rw [halted_run]
  show (p.rawLines.take m).any i.stopsOn ↔ _
  constructor
  · intro hany
    rcases Nat.lt_or_ge k m with hlt | hge
    · exact hlt
    · refine absurd ?_ hbefore
      obtain ⟨other, hmem, hother⟩ := List.any_eq_true.mp hany
      exact List.any_eq_true.mpr ⟨other, (List.take_sublist_take_left hge).mem hmem, hother⟩
  · intro hlt
    have hmem : line ∈ p.rawLines.take m := by
      apply List.mem_of_getElem? (i := k)
      rw [List.getElem?_take_of_lt hlt, hline]
    exact List.any_eq_true.mpr ⟨line, hmem, hstop⟩

/-- what follows the line that halts a program is not run -/
theorem run_take (h : (i.run p).haltLine? = some n) :
    i.run (.lines (p.rawLines.take n)) = i.run p := by
  have hall : i.run p = i.run (.lines (p.rawLines.take n ++ p.rawLines.drop n)) := by
    rw [List.take_append_drop]
    rfl
  rw [hall, run_append, if_pos ((halted_take_iff h n).mpr (Nat.le_refl n)), List.append_nil]

end

/-! ## events -/

/-- only calls are noted in a line -/
theorem Runs.halted_not_mem {i : Interpreter} {words : List String} {l : LineRun}
    (h : i.Runs words l) (n : Nat) : .halted n ∉ l.journal.events := by
  intro he
  obtain ⟨c, hc⟩ := h.exists_called he
  cases hc

theorem events_runLines (i : Interpreter) (lines : List (Nat × String)) :
    ∃ calls : List Event, (∀ n, .halted n ∉ calls) ∧
      (Run.mk (i.runLines lines)).events =
        calls ++ ((Run.mk (i.runLines lines)).haltLine?.map Event.halted).toList := by
  induction lines with
  | nil => exact ⟨[], by simp, rfl⟩
  | cons numbered more ih =>
    obtain ⟨n, line⟩ := numbered
    have hline := (i.runs_runLine line).halted_not_mem
    by_cases hs : (i.runLine line).reply.stops
    · refine ⟨(i.runLine line).journal.events, hline, ?_⟩
      rw [runLines_of_stops hs, Run.events_cons, Run.haltLine?_cons, if_pos hs, if_pos hs]
      exact List.append_nil _
    · obtain ⟨calls, hcalls, hevents⟩ := ih
      refine ⟨(i.runLine line).journal.events ++ calls, ?_, ?_⟩
      · intro m hm
        exact (List.mem_append.mp hm).elim (hline m) (hcalls m)
      · rw [runLines_of_goes_on hs, Run.events_cons, Run.haltLine?_cons, if_neg hs, if_neg hs,
          hevents, List.append_nil, List.append_assoc]

theorem events_run (i : Interpreter) (p : Program) :
    ∃ calls : List Event, (∀ n, .halted n ∉ calls) ∧
      (i.run p).events = calls ++ ((i.run p).haltLine?.map Event.halted).toList :=
  i.events_runLines p.effective

theorem halted_mem_events_iff {i : Interpreter} {p : Program} {n : Nat} :
    .halted n ∈ (i.run p).events ↔ (i.run p).haltLine? = some n := by
  obtain ⟨calls, hcalls, hevents⟩ := i.events_run p
  rw [hevents, List.mem_append, Option.mem_toList]
  constructor
  · rintro (hmem | hmem)
    · exact absurd hmem (hcalls n)
    · obtain ⟨m, hm, hn⟩ := Option.map_eq_some_iff.mp hmem
      cases hn
      exact hm
  · intro h
    rw [h]
    exact Or.inr rfl

theorem countP_isHalted_le (i : Interpreter) (p : Program) :
    (i.run p).events.countP Event.isHalted ≤ 1 := by
  obtain ⟨calls, hcalls, hevents⟩ := i.events_run p
  have hzero : calls.countP Event.isHalted = 0 := by
    rw [List.countP_eq_zero]
    intro e he hhalted
    cases e with
    | expanding => cases hhalted
    | dispatching => cases hhalted
    | halted n => exact hcalls n he
  rw [hevents, List.countP_append, hzero, Nat.zero_add]
  cases (i.run p).haltLine? with
  | none => exact Nat.zero_le 1
  | some n => exact Nat.le_refl 1

/-- **The line that is noted as the end of a program is the one that halts it.**  The end is noted at
most once, and exactly if the last entry of the log is one that halts.  The number that is noted is the
least number of lines that halt; the line of this number is neither blank nor a comment; nothing is
noted behind it; and the lines up to it log what the whole program logs. -/
theorem halted_event_names_line (i : Interpreter) (hr : i.registry.RunsBuiltins) (p : Program) :
    (i.run p).events.countP Event.isHalted ≤ 1 ∧
    ((∃ n, .halted n ∈ (i.run p).events) ↔
      ∃ e, (i.evaluate p).getLast? = some e ∧ e.severity.halts) ∧
    ∀ n, .halted n ∈ (i.run p).events →
      (i.run (.lines (p.rawLines.take n))).halted ∧
      (∀ k < n, ¬(i.run (.lines (p.rawLines.take k))).halted) ∧
      (∃ k line, n = k + 1 ∧ p.rawLines[k]? = some line ∧
        Text.trim line ≠ "" ∧ ¬isComment (Text.trim line)) ∧
      (i.run p).events.getLast? = some (.halted n) ∧
      i.evaluate (.lines (p.rawLines.take n)) = i.evaluate p := by
  refine ⟨i.countP_isHalted_le p, ?_, ?_⟩
  · rw [(evaluate_haltsWith_of_runsBuiltins hr p).getLast?_iff, Run.halted, Option.isSome_iff_exists]
    exact exists_congr fun n => halted_mem_events_iff
  · intro n hn
    have hhalt := halted_mem_events_iff.mp hn
    refine ⟨(halted_take_iff hhalt n).mpr (Nat.le_refl n), ?_, ?_, ?_, ?_⟩
    · intro k hk hhalted
      exact absurd ((halted_take_iff hhalt k).mp hhalted) (Nat.not_le.mpr hk)
    · obtain ⟨k, line, hnk, hline, hstop, -⟩ := exists_of_haltLine? hhalt
      have heffective : isEffective (Text.trim line) := (Bool.and_eq_true_iff.mp hstop).1
      obtain ⟨hne, hcomment⟩ := Bool.and_eq_true_iff.mp heffective
      exact ⟨k, line, hnk, hline, bne_iff_ne.mp hne, by simpa using hcomment⟩
    · obtain ⟨calls, -, hevents⟩ := i.events_run p
      rw [hevents, hhalt]
      exact List.getLast?_concat
    · rw [evaluate, evaluate, run_take hhalt]

/-- the fifth line is the third that does something; its stop stands inside a print, and a comment in
front of it holds the word of another -/
theorem halted_event_names_line_nested :
    let i : Interpreter :=
      ⟨Registry.builtin.register ⟨.stop, .fixed 1, CommandName.stop.handler⟩, .default⟩
    let p := Program.source "// header\n\nprint a\n\u3000-- stop b\nprint c warn d stop done e\nstop f"
    i.registry.RunsBuiltins ∧ .halted 5 ∈ (i.run p).events ∧
    (i.run p).events.getLast? = some (.halted 5) ∧
    ¬(i.run (.lines (p.rawLines.take 4))).halted ∧
    i.evaluate (.lines (p.rawLines.take 5)) = i.evaluate p ∧
    i.evaluate p = [⟨.info, "a"⟩, ⟨.halt, "done"⟩] := by
  intro i p
  have hstop : Command.OfBuiltin ⟨.stop, .fixed 1, CommandName.stop.handler⟩ :=
    ⟨.stop, rfl, Nat.zero_le 1⟩
  have hof : i.registry.OfBuiltins := Registry.builtin_ofBuiltins.register hstop
  have hr : i.registry.RunsBuiltins := Registry.OfBuiltins.runsBuiltins hof
  have hmem : .halted 5 ∈ (i.run p).events := by decide +kernel
  obtain ⟨-, hbefore, -, hlast, hlog⟩ := (i.halted_event_names_line hr p).2.2 5 hmem
  exact ⟨hr, hmem, hlast, hbefore 4 (by decide), hlog, by decide +kernel⟩

end Interpreter

end LineScript
