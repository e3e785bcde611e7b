import LineScript.Proofs.Room

/-!
# A command behind a print

A command that begins a line and the same command as the argument of a `print` are run by different
means, the second one level deeper.  Under a limit that is one higher they come to the same.

* `Registry.StopsAlike`   one stop under two limits, of which the second is one higher;
* `Registry.EndsAlike`    the same values, or such a stop;
* `Forest.walk_deeper`    a forest walked one level deeper under a limit that is one higher.

For lines this is `Interpreter.runLineWithin_behind_print`.
-/

namespace LineScript

/-! ## ends that are alike -/

namespace Registry

/-- one stop under two limits: a registered command stopped on the same values, or each limit was
passed at the same place -/
inductive StopsAlike (r : Registry) (limit : Nat) : Reply → Reply → Prop where
  | ran {n : CommandName} {c : Command} {values : List Value} (hn : r.find? n = some c)
      (hs : (c.run values).stops) : StopsAlike r limit (c.run values) (c.run values)
  | tooDeep : StopsAlike r limit (.failed (.depthExceeded limit))
      (.failed (.depthExceeded (limit + 1)))

inductive EndsAlike (r : Registry) (limit : Nat) :
    Except Reply (List Value) → Except Reply (List Value) → Prop where
  | ok (values : List Value) : EndsAlike r limit (.ok values) (.ok values)
  | error {a b : Reply} (h : r.StopsAlike limit a b) : EndsAlike r limit (.error a) (.error b)

variable {r : Registry} {limit : Nat}

theorem StopsAlike.stops {a b : Reply} (h : r.StopsAlike limit a b) : a.stops ∧ b.stops := by
  cases h with
  | ran hn hs => exact ⟨hs, hs⟩
  | tooDeep => exact ⟨rfl, rfl⟩

theorem StopsAlike.isShort_eq {a b : Reply} (h : r.StopsAlike limit a b) :
    b.isShort = a.isShort := by
  cases h with
  | ran hn hs => rfl
  | tooDeep => rfl

theorem EndsAlike.map {a b : Except Reply (List Value)} (h : r.EndsAlike limit a b)
    (g : List Value → List Value) : r.EndsAlike limit (a.map g) (b.map g) := by
  cases h with
  | ok values => exact .ok (g values)
  | error h => exact .error h

end Registry

/-! ## one level deeper -/

theorem Forest.walk_deeper {r : Registry} {rest : List Argument} {f : Forest}
    (hf : f.Shaped r rest) (limit depth : Nat) :
    r.EndsAlike limit (f.walk limit depth).1 (f.walk (limit + 1) (depth + 1)).1 ∧
    (f.walk (limit + 1) (depth + 1)).2.log = (f.walk limit depth).2.log := by
  induction f generalizing rest depth with
  | nil => exact ⟨.ok [], rfl⟩
  | leaf arg more ih =>
    obtain ⟨he, hl⟩ := ih hf.2 depth
    rw [walk_leaf, walk_leaf]
    exact ⟨he.map _, hl⟩
  | call arg c operands more ih1 ih2 =>
    obtain ⟨hc, -, ho, hm⟩ := hf
    have hn := Registry.find?_of_commandOf? hc
    by_cases hd : limit < depth
    · rw [walk_call_of_lt hd, walk_call_of_lt (Nat.succ_lt_succ hd)]
      exact ⟨.error .tooDeep, rfl⟩
    have hd' : ¬limit + 1 < depth + 1 := fun h => hd (Nat.lt_of_succ_lt_succ h)
    obtain ⟨he, hl⟩ := ih1 ho (depth + 1)
    rcases hw : operands.walk limit (depth + 1) with ⟨result, noted⟩
    rcases hw' : operands.walk (limit + 1) (depth + 1 + 1) with ⟨result', noted'⟩
    rw [hw, hw'] at he hl
    cases he with
    | error h =>
      rw [walk_call_of_error hd hw, walk_call_of_error hd' hw']
      exact ⟨.error h, hl⟩
    | ok values =>
      by_cases hs : (c.run values).stops
      · rw [walk_call_of_stops hd hw hs, walk_call_of_stops hd' hw' hs]
        refine ⟨.error (.ran hn hs), ?_⟩
        rw [Journal.append_log, Journal.append_log, hl, Journal.log_ofEvent, Journal.log_ofEvent]
      · obtain ⟨he2, hl2⟩ := ih2 hm depth
        rw [walk_call_of_goes_on hd hw hs, walk_call_of_goes_on hd' hw' hs]
        refine ⟨he2.map _, ?_⟩
        simp only [Journal.append_log, Journal.log_ofEvent]
        rw [hl, hl2]

theorem Forest.reach_deeper (f : Forest) (limit depth : Nat) :
    f.reach (limit + 1) (depth + 1) = f.reach limit depth := by
  induction f generalizing depth with
  | nil => rfl
  | leaf arg more ih => rw [reach, reach, ih]
  | call arg c operands more ih1 ih2 =>
    rw [reach, reach, ih1, ih2]
    simp only [Nat.add_lt_add_iff_right]

/-- and it asks for as much room -/
theorem Forest.fits_deeper (f : Forest) (room limit depth : Nat) :
    f.Fits room (limit + 1) (depth + 1) ↔ f.Fits room limit depth := by
  induction f generalizing depth with
  | nil => exact Iff.rfl
  | leaf arg more ih => exact ih depth
  | call arg c operands more ih1 ih2 =>
    rw [Fits, Fits, ih1, ih2, reach_deeper]
    simp only [Nat.add_le_add_iff_right]

/-! ## lines -/

theorem CommandName.run_print (v : Value) :
    CommandName.print.builtin.run [v] = .done (.log .info v.display) := rfl

/-- the forest of a command with its arguments in front, where the command takes them all -/
theorem Registry.Parses.call {r : Registry} {args : List Argument} {f : Forest}
    (hf : r.Parses args f) {word : String} {c : Command} (hc : r.commandOf? (.word word) = some c)
    (hroom : ∀ count, c.arity = .fixed count → f.roots ≤ count) :
    r.Parses (.word word :: args) (.call (.word word) c f .nil) := by
  obtain ⟨hp, hs⟩ := hf
  have hmet : c.arity.MetBy f.roots [] := by
    cases ha : c.arity with
    | fixed count => exact Arity.metBy_nil_fixed.mpr (hroom count ha)
    | variadic => rfl
  refine ⟨?_, hc, hmet, hs, trivial⟩
  rw [Forest.preorder, hp, Forest.preorder, List.append_nil]

namespace Interpreter

def withMaxDepth (i : Interpreter) (limit : Nat) : Interpreter :=
  { i with config := { i.config with maxDepth := limit } }

section
variable {i : Interpreter} {word : String} {c : Command} {tokens : List String} {f : Forest}

/-- behind a print a command and its arguments have one tree, and their own forest stands below its
root -/
theorem parses_behind_print (hc : i.registry.lookup? word = some c)
    (hf : i.registry.Parses (tokens.map Argument.ofWord) f)
    (hall : ∀ count, c.arity = .fixed count → f.roots ≤ count) :
    i.registry.Parses ((word :: tokens).map Argument.ofWord) (.call (.word word) c f .nil) := by
  obtain ⟨hword, -⟩ := Registry.find?_of_lookup? hc
  rw [List.map_cons, hword, Argument.ofWord_word, ← hword]
  exact hf.call hc hall

/-- what a command comes to at the front of a line and behind a print -/
theorem runWords_behind_print (hp : i.registry.find? .print = some CommandName.print.builtin)
    (hc : i.registry.lookup? word = some c)
    (hf : i.registry.Parses (tokens.map Argument.ofWord) f)
    (hall : ∀ count, c.arity = .fixed count → f.roots ≤ count) (limit : Nat) :
    let own := (i.withMaxDepth limit).runWords (word :: tokens)
    let outer := (i.withMaxDepth (limit + 1)).runWords ("print" :: word :: tokens)
    outer.reply.stops = own.reply.stops ∧
    (own.reply.stops → i.registry.StopsAlike limit own.reply outer.reply ∧
      outer.entries = own.journal.log ++ outer.reply.outcome.entries) ∧
    (¬own.reply.stops →
      outer.entries = own.entries ++ [⟨.info, own.reply.outcome.valueD.display⟩]) := by
  intro own outer
  obtain ⟨-, hn⟩ := Registry.find?_of_lookup? hc
  have hprint : i.registry.lookup? "print" = some CommandName.print.builtin :=
    (i.registry.lookup?_word .print).trans hp
  have hcall := parses_behind_print hc hf hall
  have hd : ¬limit + 1 < 1 := by omega
  obtain ⟨he, hlog⟩ := Forest.walk_deeper hf.2 limit 1
  rcases hw : f.walk limit 1 with ⟨result, noted⟩
  rcases hw' : f.walk (limit + 1) (1 + 1) with ⟨result', noted'⟩
  rw [hw, hw'] at he hlog
  cases he with
  | error h =>
    have hwalk := Forest.walk_call_of_error (c := c) hd hw' (.word word) .nil
    have hown : own = _ := runWords_of_walk_error (i := i.withMaxDepth limit) hc hf hw
    have houter : outer = _ :=
      runWords_of_walk_error (i := i.withMaxDepth (limit + 1)) hprint hcall hwalk
    rw [hown, houter]
    obtain ⟨hstop, hstop'⟩ := h.stops
    refine ⟨hstop'.trans hstop.symm, fun _ => ⟨h, ?_⟩, fun hgo => absurd hstop hgo⟩
    show noted'.log ++ _ = noted.log ++ _
    rw [hlog]
  | ok values =>
    have hown : own = _ := runWords_of_walk_ok (i := i.withMaxDepth limit) hc hf hw
    by_cases hs : (c.run values).stops
    · have hwalk := Forest.walk_call_of_stops hd hw' hs (.word word) .nil
      have houter : outer = _ :=
        runWords_of_walk_error (i := i.withMaxDepth (limit + 1)) hprint hcall hwalk
      rw [hown, houter]
      refine ⟨rfl, fun _ => ⟨.ran hn hs, ?_⟩, fun hgo => absurd hs hgo⟩
      rw [LineRun.entries, Journal.append_log, Journal.append_log, hlog, Journal.log_ofEvent,
        Journal.log_ofEvent]
    · have hwalk := Forest.walk_call_of_goes_on hd hw' hs (.word word) .nil
      have houter : outer = _ :=
        runWords_of_walk_ok (i := i.withMaxDepth (limit + 1)) hprint hcall hwalk
      rw [hown, houter]
      have hgo : (c.run values).stops = false := by simpa using hs
      refine ⟨?_, fun h => absurd h hs, fun _ => ?_⟩
      · show false = (c.run values).stops
        rw [hgo]
      · simp only [LineRun.entries, Journal.append_log, Journal.log_ofEvent, Journal.log_ofLog,
          Forest.walk_nil, List.append_nil]
        rw [hlog, CommandName.run_print, List.append_assoc]
        rfl

/-- a handler lacks an operand behind a print exactly if it does at the front of the line -/
theorem isShort_behind_print (hp : i.registry.find? .print = some CommandName.print.builtin)
    (hc : i.registry.lookup? word = some c)
    (hf : i.registry.Parses (tokens.map Argument.ofWord) f)
    (hall : ∀ count, c.arity = .fixed count → f.roots ≤ count) (limit : Nat) :
    ((i.withMaxDepth (limit + 1)).runWords ("print" :: word :: tokens)).reply.isShort =
      ((i.withMaxDepth limit).runWords (word :: tokens)).reply.isShort := by
  obtain ⟨hstops, halike, -⟩ := runWords_behind_print hp hc hf hall limit
  by_cases hs : ((i.withMaxDepth limit).runWords (word :: tokens)).reply.stops
  · exact (halike hs).1.isShort_eq
  · have hlong : ∀ {reply : Reply}, ¬reply.stops → reply.isShort = false :=
      fun hgo => Bool.eq_false_iff.mpr fun h => hgo (Reply.stops_of_isShort h)
    rw [hlong hs, hlong (hstops ▸ hs)]

/-- **A command behind a print is run as at the front of the line.**  Let a line begin with a command
that takes all the arguments behind it, and let a second line be that line behind a print, under a
limit that is one higher.  The second is answered exactly if the first is and there is room for the
command itself, for which a line makes none.  If so, the second stops if the first does, with the same
stop behind the same entries; the only difference is the limit in the message that it was passed.
Otherwise it logs what the first logs and then the value of the first. -/
theorem runLineWithin_behind_print {line behind : String}
    (hp : i.registry.find? .print = some CommandName.print.builtin)
    (hc : i.registry.lookup? word = some c)
    (hf : i.registry.Parses (tokens.map Argument.ofWord) f)
    (hall : ∀ count, c.arity = .fixed count → f.roots ≤ count)
    (hl : Text.words line = word :: tokens)
    (hb : Text.words behind = "print" :: word :: tokens) (room limit : Nat) :
    let own := (i.withMaxDepth limit).runLineWithin room line
    let outer := (i.withMaxDepth (limit + 1)).runLineWithin room behind
    ((∃ b, outer = some b) ↔ c.arity.reserved ≤ room ∧ ∃ a, own = some a) ∧
    ∀ a b, own = some a → outer = some b →
      b.reply.stops = a.reply.stops ∧
      (a.reply.stops → i.registry.StopsAlike limit a.reply b.reply ∧
        b.entries = a.journal.log ++ b.reply.outcome.entries) ∧
      (¬a.reply.stops →
        b.entries = a.entries ++ [⟨.info, a.reply.outcome.valueD.display⟩]) := by
  intro own outer
  have hprint : i.registry.lookup? "print" = some CommandName.print.builtin :=
    (i.registry.lookup?_word .print).trans hp
  have hcall := parses_behind_print hc hf hall
  have hown : (i.withMaxDepth limit).LineFits room line ↔ f.Fits room limit 1 := by
    rw [LineFits, hl]
    exact wordsFit_iff (i := i.withMaxDepth limit) hc hf
  have houter : (i.withMaxDepth (limit + 1)).LineFits room behind ↔
      c.arity.reserved ≤ room ∧ f.Fits room limit 1 := by
    rw [LineFits, hb, wordsFit_iff (i := i.withMaxDepth (limit + 1)) hprint hcall]
    show Forest.Fits room (limit + 1) 1 _ ↔ _
    rw [← f.fits_deeper]
    simp [Forest.Fits]
  have hshort := isShort_behind_print hp hc hf hall limit
  have hruns := runWords_behind_print hp hc hf hall limit
  rw [← hb, ← hl] at hshort hruns
  constructor
  · simp only [own, outer, runLineWithin_eq_some_iff, exists_eq_left, hown, houter, and_assoc]
    rw [runLine, runLine, hshort]
  · intro a b ha hb
    rw [(runLineWithin_eq_some_iff.mp ha).1, (runLineWithin_eq_some_iff.mp hb).1]
    exact hruns

end

/-- with a warning of one value, `add warn w not not 1` warns and is then too deep for the limit 1,
and behind a print it warns and is too deep for the limit 2 -/
theorem runLineWithin_behind_print_too_deep :
    let warning : Command := ⟨.warn, .fixed 1, CommandName.warn.handler⟩
    let i : Interpreter := ⟨Registry.builtin.register warning, .default⟩
    ∃ own outer, (i.withMaxDepth 1).runLineWithin 2 "add warn w not not 1" = some own ∧
      (i.withMaxDepth 2).runLineWithin 2 "print add warn w not not 1" = some outer ∧
      own.entries = [⟨.warning, "w"⟩, ⟨.error, "Maximum nesting depth of 1 exceeded."⟩] ∧
      own.reply.stops ∧ i.registry.StopsAlike 1 own.reply outer.reply ∧
      outer.entries = [⟨.warning, "w"⟩, ⟨.error, "Maximum nesting depth of 2 exceeded."⟩] := by
  intro warning i
  let inner := Forest.call (.word "not") CommandName.not.builtin (.leaf (.word "1") .nil) .nil
  let negated := Forest.call (.word "not") CommandName.not.builtin inner .nil
  let f := Forest.call (.word "warn") warning (.leaf (.word "w") .nil) negated
  have hnot : i.registry.commandOf? (.word "not") = some CommandName.not.builtin :=
    i.registry.commandOf?_word .not
  have hinner : inner.Shaped i.registry [] := ⟨hnot, Or.inl rfl, ⟨rfl, trivial⟩, trivial⟩
  have hnegated : negated.Shaped i.registry [] := ⟨hnot, Or.inl rfl, hinner, trivial⟩
  have hf : i.registry.Parses (["warn", "w", "not", "not", "1"].map Argument.ofWord) f :=
    ⟨by decide +kernel, i.registry.commandOf?_word .warn, Or.inl rfl, ⟨rfl, trivial⟩, hnegated⟩
  have hall : ∀ count, CommandName.add.builtin.arity = .fixed count → f.roots ≤ count := by
    intro count h
    cases h
    decide
  have hl : Text.words "add warn w not not 1" = ["add", "warn", "w", "not", "not", "1"] := by
    decide +kernel
  have hb : Text.words "print add warn w not not 1" =
      ["print", "add", "warn", "w", "not", "not", "1"] := by
    decide +kernel
  have hown : ∃ own, (i.withMaxDepth 1).runLineWithin 2 "add warn w not not 1" = some own :=
    Option.isSome_iff_exists.mp (by decide +kernel)
  obtain ⟨hanswered, hruns⟩ :=
    runLineWithin_behind_print (i := i) rfl (i.registry.lookup?_word .add) hf hall hl hb 2 1
  obtain ⟨outer, houter⟩ := hanswered.mpr ⟨by decide, hown⟩
  obtain ⟨own, hown⟩ := hown
  obtain ⟨-, halike, -⟩ := hruns own outer hown houter
  have hstops : own.reply.stops := by
    rw [(runLineWithin_eq_some_iff.mp hown).1]
    decide +kernel
  refine ⟨own, outer, hown, houter, ?_, hstops, (halike hstops).1, ?_⟩
  · rw [(runLineWithin_eq_some_iff.mp hown).1]
    decide +kernel
  · rw [(runLineWithin_eq_some_iff.mp houter).1]
    decide +kernel

/-- a sum that takes more operands than there can be room for: at the front of a line it finds that all
but two are wanting, and behind a print it is not answered -/
theorem runLineWithin_none_of_sum_behind_print :
    let sum : Command := ⟨.add, .fixed 0xFFFFFFFFFFFFFFFF, CommandName.add.handler⟩
    let i : Interpreter := ⟨Registry.builtin.register sum, .default⟩
    (∃ own, (i.withMaxDepth 63).runLineWithin mostRoom "add 1 2" = some own ∧
      own.entries = [⟨.error, "Command \"add\" expects 18446744073709551615 arguments, got 2."⟩]) ∧
    (i.withMaxDepth 64).runLineWithin mostRoom "print add 1 2" = none := by
  intro sum i
  constructor
  · obtain ⟨own, hown⟩ :=
      Option.isSome_iff_exists.mp
        (show ((i.withMaxDepth 63).runLineWithin mostRoom "add 1 2").isSome by decide +kernel)
    refine ⟨own, hown, ?_⟩
    rw [(runLineWithin_eq_some_iff.mp hown).1]
    decide +kernel
  · rw [← Option.isNone_iff_eq_none]
    decide +kernel

end Interpreter

end LineScript
