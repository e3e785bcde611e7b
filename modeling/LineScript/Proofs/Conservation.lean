import Mathlib.Algebra.GroupWithZero.Nat
import LineScript.Proofs.Rules

/-!
# Arguments are used once

Every call puts one value in the place of its operands, and its event tells how many these were.  So
the events account for the words of a line: each word is an operand of exactly one call, be it as it
stands or through the value of the call that it names.

* `Event.args`                                how many values the command of an event is called on;
* `Forest.Completes.sum_args`                 the operands of the calls and the values that are left
                                              are the arguments;
* `Interpreter.events_account_for_words`      the same for a line, event by event.
-/

namespace LineScript

def Event.args (e : Event) : Nat := e.values.length

/-! ## walks -/

namespace Forest

section
variable {r : Registry} {limit depth : Nat} {f : Forest} {values : List Value} {noted : Journal}
  {rest : List Argument}

/-- what a call notes between what its operands and what the trees after it note -/
theorem events_of_call (noted later : Journal) (e : Event) (entries : List Entry) :
    (noted ++ .ofEvent e ++ .ofLog entries ++ later).events =
      noted.events ++ e :: later.events := by
  simp only [Journal.append_events, Journal.ofEvent, Journal.ofLog, List.append_nil,
    List.append_assoc, List.singleton_append]

theorem Completes.sum_args (h : f.Completes limit depth values noted) :
    (noted.events.map Event.args).sum + values.length = f.preorder.length := by
  induction h with
  | nil depth => rfl
  | leaf hm arg ih =>
    rw [preorder, List.length_cons, List.length_cons, ← ih]
    omega
  | @call depth c operands more values others noted later hd ho hs hm arg ih1 ih2 =>
    have hargs : (Event.expanding c.name depth values).args = values.length := rfl
    rw [events_of_call, preorder, List.length_cons, List.length_cons, List.length_append, ← ih1,
      ← ih2, List.map_append, List.map_cons, List.sum_append, List.sum_cons, hargs]
    omega

theorem Completes.length_events (h : f.Completes limit depth values noted) :
    noted.events.length = f.calls := by
  induction h with
  | nil depth => rfl
  | leaf hm arg ih => exact ih
  | call hd ho hs hm arg ih1 ih2 =>
    rw [events_of_call, calls, List.length_append, List.length_cons, ih1, ih2]
    omega

/-- a walk that nothing stops calls no command that stops -/
theorem Completes.goes_on_of_mem (h : f.Completes limit depth values noted)
    (hf : f.Shaped r rest) {n : CommandName} {d : Nat} {operands : List Value} {c : Command}
    (he : .expanding n d operands ∈ noted.events) (hc : r.find? n = some c) :
    ¬(c.run operands).stops := by
  induction h generalizing rest with
  | nil depth => cases he
  | leaf hm arg ih => exact ih hf.2 he
  | call hd ho hs hm arg ih1 ih2 =>
    obtain ⟨hcall, -, hfo, hfm⟩ := hf
    rw [events_of_call, List.mem_append, List.mem_cons] at he
    rcases he with he | he | he
    · exact ih1 hfo he
    · cases he
      cases (Registry.find?_of_commandOf? hcall).symm.trans hc
      exact hs
    · exact ih2 hfm he

end

end Forest

/-- a command of fixed arity that does not stop had as many values at least -/
theorem Command.le_length_of_goes_on {c : Command} {count : Nat} (h : c.arity = .fixed count)
    {values : List Value} (hs : ¬(c.run values).stops) : count ≤ values.length := by
  rcases Nat.lt_or_ge values.length count with hlt | hle
  · rw [run_of_lt h hlt] at hs
    exact absurd rfl hs
  · exact hle

/-- at a walk that nothing stops each event is one of a registered command, at a depth from that of the
roots to the limit, on as many values as the command takes -/
theorem Forest.Completes.call_of_mem {r : Registry} {limit depth : Nat} {f : Forest}
    {values : List Value} {noted : Journal} {rest : List Argument}
    (h : f.Completes limit depth values noted) (hf : f.Shaped r rest) {e : Event}
    (he : e ∈ noted.events) :
    ∃ n d operands c, e = .expanding n d operands ∧ depth ≤ d ∧ d ≤ limit ∧
      r.find? n = some c ∧ ∀ count, c.arity = .fixed count → operands.length = count := by
  cases h.walks.noted_of_mem hf he with
  | @call c d below left operands later hc hd hl hb hm ha hw =>
    refine ⟨c.name, d, operands, c, rfl, hd, hl, hc, fun count hfixed => ?_⟩
    have hle : operands.length ≤ count := by
      rw [hw.length_eq_roots]
      rw [hfixed] at hm
      exact hm.roots_le
    exact Nat.le_antisymm hle
      (Command.le_length_of_goes_on hfixed (h.goes_on_of_mem hf he hc))

/-! ## lines -/

/-- **Every word of a line is used once.**  Where the command of a line is called, the events of the
line are those of the calls inside it and then its own.  The numbers of values that they tell add up to
the number of words behind the first; the calls inside are as many as the bare words that name a
registered command; and each is at a depth from 1 to the limit, on as many values as its command
takes. -/
theorem Interpreter.events_account_for_words {i : Interpreter} {line word : String}
    {values : List Value} (h : .dispatching word values ∈ (i.runLine line).journal.events) :
    ∃ tokens nested, Text.words line = word :: tokens ∧
      (i.runLine line).journal.events = nested ++ [.dispatching word values] ∧
      tokens.length = (nested.map Event.args).sum + (Event.dispatching word values).args ∧
      nested.length = tokens.countP i.registry.names ∧
      ∀ e ∈ nested, ∃ n depth operands c, e = .expanding n depth operands ∧
        1 ≤ depth ∧ depth ≤ i.config.maxDepth ∧ i.registry.find? n = some c ∧
        ∀ count, c.arity = .fixed count → operands.length = count := by
  have hrun := i.runs_runLine line
  generalize i.runLine line = l at h hrun
  generalize hw : Text.words line = words at hrun
  cases hrun with
  | blank => cases h
  | unknown hc tokens => cases h
  | stopped hc hf hwalk => cases hwalk.noted_of_mem hf.2 h
  | @dispatched first c tokens f others noted hc hf hwalk =>
    have hcomplete := hwalk.completes rfl
    have hown : Event.dispatching word values = .dispatching first others := by
      rcases List.mem_append.mp h with hin | hin
      · cases hwalk.noted_of_mem hf.2 hin
      · exact List.mem_singleton.mp hin
    cases hown
    refine ⟨tokens, noted.events, rfl, rfl, ?_, ?_, fun e he => hcomplete.call_of_mem hf.2 he⟩
    · have hlength := hcomplete.sum_args
      rw [hf.1, List.length_map] at hlength
      exact hlength.symm
    · rw [hcomplete.length_events, hf.calls_eq]

/-- a sum inside a sum and a warning, called on 2, 2 and 1 values, leave 3 values to the print; between
quotes `add` calls nothing -/
theorem Interpreter.events_account_for_words_nested :
    let i : Interpreter := ⟨.builtin, .default⟩
    let line := "print add a add b c \"add\" warn w"
    ∃ tokens nested, Text.words line = "print" :: tokens ∧
      (i.runLine line).journal.events = nested ++
        [.dispatching "print" [.text "abc", .text "add", .bool true]] ∧
      tokens.length = 8 ∧ (nested.map Event.args).sum = 5 ∧
      nested.length = tokens.countP i.registry.names := by
  intro i line
  have h : Event.dispatching "print" [.text "abc", .text "add", .bool true] ∈
      (i.runLine line).journal.events := by decide +kernel
  obtain ⟨tokens, nested, hw, hevents, hsum, hcount, -⟩ := events_account_for_words h
  have hwords : Text.words line = ["print", "add", "a", "add", "b", "c", "\"add\"", "warn", "w"] := by
    decide +kernel
  have hlength : tokens.length = 8 := by
    rw [(List.cons.inj (hw.symm.trans hwords)).2]
    rfl
  refine ⟨tokens, nested, hw, hevents, hlength, ?_, hcount⟩
  rw [hlength] at hsum
  exact (Nat.add_right_cancel (m := 3) hsum).symm

end LineScript
