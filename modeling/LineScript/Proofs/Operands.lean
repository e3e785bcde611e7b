import LineScript.Proofs.Agreement
import LineScript.Proofs.Retelling

/-!
# Operands in range

A handler reads its operands by their places and does not look whether they are there.  This is safe if
the arity of its command asks for as many: on fewer values the handler is not run.

* `Command.InRange`    a call that is refused, or that gives a handler all that it reads;
* `Registry.onShort`   a registry whose handlers do something else where an operand is missing.

`Interpreter.operands_in_range` is the theorem.  It speaks of the calls that are noted, and then of all
that are made: whatever a handler does where an operand is missing, no run shows a trace of it.
-/

namespace LineScript

/-! ## handlers -/

/-- `needs` is the number of values below which an operand is missing -/
theorem CommandName.isShort_handler_iff (n : CommandName) (values : List Value) :
    (n.handler values).isShort ↔ values.length < n.needs := by
  constructor
  · intro h
    cases hr : n.handler values with
    | done o =>
      rw [hr] at h
      cases h
    | failed f =>
      rcases handler_failed_cases hr with hzero | ⟨hlt, -⟩
      · rw [hr, hzero] at h
        cases h
      · exact hlt
  · intro h
    cases n with
    | print | warn | error | stop => exact absurd h (Nat.not_lt_zero _)
    | not =>
      match values with
      | [] => rfl
      | _ :: rest => exact absurd h (Nat.not_lt.mpr (Nat.le_add_left 1 rest.length))
    | add | sub | mul | div | pow | equals =>
      match values with
      | [] => rfl
      | [_] => rfl
      | _ :: _ :: rest => exact absurd h (Nat.not_lt.mpr (Nat.le_add_left 2 rest.length))

/-! ## calls -/

namespace Command

/-- a call either ends before the handler is run, because there are fewer values than the arity asks
for, or runs a built-in handler on as many values as it reads -/
inductive InRange (c : Command) (values : List Value) : Prop where
  | refused {count : Nat} (ha : c.arity = .fixed count) (hv : values.length < count)
      (hr : c.run values = .failed (.arityMismatch c.name count values.length))
  | served {n : CommandName} (hn : c.handler = n.handler) (hv : n.needs ≤ values.length)
      (hr : c.run values = c.handler values)

theorem OfBuiltin.inRange {c : Command} (hc : c.OfBuiltin) (values : List Value) :
    c.InRange values := by
  obtain ⟨n, hn, hs⟩ := hc
  rcases c.run_cases values with ⟨hv, hrun⟩ | ⟨count, ha, hv, hrun⟩
  · exact .served hn (hs.needs_le hv) hrun
  · exact .refused ha hv hrun

/-- commands of one name and one arity reply alike to values on which their handlers do so or are not
run -/
theorem run_congr {c d : Command} (hname : c.name = d.name) (harity : c.arity = d.arity)
    {values : List Value} (h : (∀ count, c.arity = .fixed count → count ≤ values.length) →
      c.handler values = d.handler values) : c.run values = d.run values := by
  rcases c.run_cases values with ⟨hv, hc⟩ | ⟨count, ha, hlt, hc⟩
  · rcases d.run_cases values with ⟨-, hd⟩ | ⟨count, ha, hlt, -⟩
    · rw [hc, hd, h hv]
    · exact absurd (hv count (harity.trans ha)) (Nat.not_le.mpr hlt)
  · rw [hc, run_of_lt (harity.symm.trans ha) hlt, hname]

/-- the command with `g` in the place of its handler where this has an operand too few -/
def onShort (g : CommandName → Handler) (c : Command) : Command :=
  ⟨c.name, c.arity, fun values =>
    if (c.handler values).isShort then g c.name values else c.handler values⟩

theorem OfBuiltin.alike_onShort {c : Command} (hc : c.OfBuiltin) (g : CommandName → Handler) :
    c.Alike (c.onShort g) := by
  obtain ⟨n, hn, hs⟩ := hc
  refine ⟨rfl, rfl, fun values => run_congr (c := c) (d := c.onShort g) rfl rfl fun hv => ?_⟩
  have hlong : ¬(c.handler values).isShort := by
    rw [hn, n.isShort_handler_iff]
    exact Nat.not_lt.mpr (hs.needs_le hv)
  exact (if_neg hlong).symm

end Command

namespace Registry

/-- the registry with `g` in the place of every handler that has an operand too few -/
def onShort (g : CommandName → Handler) (r : Registry) : Registry where
  find? n := (r.find? n).map (Command.onShort g)
  name_of_find h := by
    obtain ⟨c, hc, rfl⟩ := Option.map_eq_some_iff.mp h
    show c.name = _
    exact r.name_of_find hc

theorem lookup?_onShort (g : CommandName → Handler) (r : Registry) (word : String) :
    (r.onShort g).lookup? word = (r.lookup? word).map (Command.onShort g) :=
  (Option.map_bind ..).symm

theorem OfBuiltins.alikeAt_onShort {r : Registry} (hr : r.OfBuiltins) (g : CommandName → Handler)
    (word : String) : r.AlikeAt (r.onShort g) word := by
  unfold AlikeAt
  rw [lookup?_onShort]
  cases hc : r.lookup? word with
  | none => exact .none
  | some c => exact .some ((hr (find?_of_lookup? hc).2).alike_onShort g)

end Registry

/-! ## runs -/

namespace Interpreter

/-- **No handler reads past the end of its operands.**  In a registry of built-in handlers, each under
an arity that supplies it, every call of a run and every direct dispatch, on any values, either is
refused for its arity or runs a handler on as many values as it reads.  And this is so of all calls,
also of those that leave no mark: put anything in the place of the handlers where they have an operand
too few, and all programs and all dispatches run as before. -/
theorem operands_in_range (r : Registry) (hr : r.OfBuiltins) (config : Config) :
    let i : Interpreter := ⟨r, config⟩
    (∀ (n : CommandName) (values : List Value),
      (n.handler values).isShort ↔ values.length < n.needs) ∧
    (∀ p, ∀ e ∈ (i.run p).events, (∃ n, e = .halted n) ∨
      ∃ c, r.called? e = some c ∧ c.InRange e.values) ∧
    (∀ word values, i.dispatch word values = ⟨.failed (.unknownCommand word), .empty⟩ ∨
      ∃ c, r.lookup? word = some c ∧ (i.dispatch word values).reply = c.run values ∧
        c.InRange values) ∧
    ∀ g : CommandName → Handler,
      (∀ p, run ⟨r.onShort g, config⟩ p = i.run p) ∧
      ∀ word values, dispatch ⟨r.onShort g, config⟩ word values = i.dispatch word values := by
  intro i
  refine ⟨CommandName.isShort_handler_iff, fun p e he => ?_, fun word values => ?_, fun g => ⟨?_, ?_⟩⟩
  · rcases exists_called_of_mem_events he with hhalt | ⟨c, hc⟩
    · exact Or.inl hhalt
    · exact Or.inr ⟨c, hc, (hr (Registry.find?_of_called? hc)).inRange e.values⟩
  · cases hc : r.lookup? word with
    | none => exact Or.inl (dispatch_of_unknown hc values)
    | some c =>
      have hin := (hr (Registry.find?_of_lookup? hc).2).inRange values
      exact Or.inr ⟨c, rfl, congrArg LineRun.reply (dispatch_of_lookup (i := i) hc values), hin⟩
  · intro p
    exact (run_congr fun tokens ht w hw => hr.alikeAt_onShort g w).symm
  · intro word values
    exact (dispatch_congr (hr.alikeAt_onShort g word) values).symm

/-- a sum of three operands that ignores the last, under the name `stop`: the first line has what it
takes, `add` on the second is refused because the warning has taken its operands, and so is a dispatch
on one value -/
theorem operands_in_range_cut_short :
    let r := Registry.builtin.register ⟨.stop, .fixed 3, CommandName.add.handler⟩
    let i : Interpreter := ⟨r, .default⟩
    let p := Program.lines ["print stop a b not false", "print add warn w print p", "not"]
    let beyond : CommandName → Handler := fun _ _ => .done (.halt .halt "read past the end")
    r.OfBuiltins ∧
    ((i.run p).events = [.expanding .not 2 [.bool false],
        .expanding .stop 1 [.text "a", .text "b", .bool true], .dispatching "print" [.text "ab"],
        .expanding .print 3 [.text "p"], .expanding .warn 2 [.text "w", .bool true],
        .expanding .add 1 [.bool true], .halted 2] ∧
      ∀ e ∈ (i.run p).events, (∃ n, e = .halted n) ∨
        ∃ c, r.called? e = some c ∧ c.InRange e.values) ∧
    (i.dispatch "stop" [.text "a"]).reply = .failed (.arityMismatch .stop 3 1) ∧
    evaluate ⟨r.onShort beyond, .default⟩ p = [⟨.info, "ab"⟩, ⟨.info, "p"⟩, ⟨.warning, "w true"⟩,
      ⟨.error, "Command \"add\" expects 2 arguments, got 1."⟩] ∧
    dispatch ⟨r.onShort beyond, .default⟩ "stop" [.text "a"] = i.dispatch "stop" [.text "a"] := by
  intro r i p beyond
  have hr : r.OfBuiltins := by
    refine Registry.builtin_ofBuiltins.register ⟨.add, rfl, ?_⟩
    show 2 ≤ 3
    decide
  obtain ⟨-, hevents, -, hbeyond⟩ := operands_in_range r hr .default
  obtain ⟨hrun, hdispatch⟩ := hbeyond beyond
  refine ⟨hr, ⟨by decide +kernel, hevents p⟩, by decide +kernel, ?_, hdispatch _ _⟩
  rw [evaluate, hrun p]
  decide +kernel

end Interpreter

end LineScript
