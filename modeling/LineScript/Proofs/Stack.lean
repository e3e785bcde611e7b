import LineScript.Proofs.Room

/-!
# Expanding with a stack

Arguments can also be read from the last to the first.  A plain one puts its value on a stack, and a
command takes its operands from the top and puts its own value there.

* `Registry.push`   what one argument does to the stack;
* `Registry.scan`   the stack in front of all of some arguments, or the first command that finds too few
                    values on it;
* `Forest.EndsAt`   where a walk ends, beside `Forest.reach`, which says how far it gets.

Where nothing but a lack of operands ends it, expanding gives the stack from the top
(`Registry.expandWithin_eq_scan`).  The arguments behind a command are scanned before it and expanded
after it has begun, so this rests on what stands behind a tree not mattering to the values of the tree
(`Forest.Completes.scan`), and on a command that lacks operands having nothing behind them
(`Forest.EndsAt.scan`).
-/

namespace LineScript

/-! ## the stack -/

namespace Registry

/-- a command of fixed arity finds as many values as it takes, or too few; any other takes them all -/
def push (r : Registry) (arg : Argument) (stack : List Value) : Except Failure (List Value) :=
  match r.commandOf? arg with
  | none => .ok (arg.value :: stack)
  | some c =>
    match c.arity with
    | .variadic => .ok [(c.invoke stack).valueD]
    | .fixed count =>
      if stack.length < count then .error (.arityMismatch c.name count stack.length)
      else .ok ((c.invoke (stack.take count)).valueD :: stack.drop count)

def scan (r : Registry) (args : List Argument) : Except Failure (List Value) :=
  args.foldr (fun arg scanned => scanned.bind (r.push arg)) (.ok [])

section
variable {r : Registry} {arg : Argument} {c : Command} {count : Nat} {stack : List Value}

theorem scan_nil (r : Registry) : r.scan [] = .ok [] := rfl

theorem scan_cons (r : Registry) (arg : Argument) (more : List Argument) :
    r.scan (arg :: more) = (r.scan more).bind (r.push arg) := rfl

theorem push_plain (h : r.commandOf? arg = none) (stack : List Value) :
    r.push arg stack = .ok (arg.value :: stack) := by
  rw [push, h]

theorem push_variadic (h : r.commandOf? arg = some c) (ha : c.arity = .variadic)
    (stack : List Value) : r.push arg stack = .ok [(c.invoke stack).valueD] := by
  rw [push, h]
  simp only [ha]

theorem push_underflow (h : r.commandOf? arg = some c) (ha : c.arity = .fixed count)
    (hs : stack.length < count) :
    r.push arg stack = .error (.arityMismatch c.name count stack.length) := by
  rw [push, h]
  simp only [ha, if_pos hs]

/-- the values of its operands lie on top, and a command puts its own in their place -/
theorem push_fixed (h : r.commandOf? arg = some c) {values : List Value}
    (ha : c.arity = .fixed values.length) (stack : List Value) :
    r.push arg (values ++ stack) = .ok ((c.invoke values).valueD :: stack) := by
  have hroom : ¬(values ++ stack).length < values.length := by
    rw [List.length_append]
    omega
  rw [push, h]
  simp only [ha, if_neg hroom, List.take_left, List.drop_left]

/-- a scan fails only where a command of fixed arity finds too few values -/
theorem underflow_of_scan_error {args : List Argument} {failure : Failure}
    (h : r.scan args = .error failure) :
    ∃ (c : Command) (count got : Nat), r.find? c.name = some c ∧ c.arity = .fixed count ∧
      got < count ∧ failure = .arityMismatch c.name count got := by
  induction args with
  | nil => cases h
  | cons arg more ih =>
    rw [scan_cons] at h
    cases hm : r.scan more with
    | error earlier =>
      rw [hm] at h
      cases h
      exact ih hm
    | ok stack =>
      rw [hm] at h
      replace h : r.push arg stack = .error failure := h
      cases hc : r.commandOf? arg with
      | none =>
        rw [push_plain hc] at h
        cases h
      | some c =>
        cases ha : c.arity with
        | variadic =>
          rw [push_variadic hc ha] at h
          cases h
        | fixed count =>
          by_cases hs : stack.length < count
          · rw [push_underflow hc ha hs] at h
            cases h
            exact ⟨c, count, stack.length, find?_of_commandOf? hc, ha, hs, rfl⟩
          · rw [push, hc] at h
            simp only [ha, if_neg hs] at h
            cases h

end

end Registry

/-! ## what ends a walk -/

namespace Forest

/-- the command was given fewer values than it takes, so its handler was never run -/
def Stop.isShort : Stop → Bool
  | .tooDeep => false
  | .ran c values =>
    match c.arity with
    | .fixed count => values.length < count
    | .variadic => false

/-- what ends a walk is short if it is found so -/
theorem Stop.isShort_of_mapError {reached : Except Stop (List Value)}
    (h : reached.mapError isShort = .error true) {stop : Stop} (hs : reached = .error stop) :
    stop.isShort := by
  rw [hs] at h
  exact Except.error.inj h

theorem Stop.eq_of_isShort {stop : Stop} (h : stop.isShort) :
    ∃ c values count, stop = .ran c values ∧ c.arity = .fixed count ∧ values.length < count := by
  cases stop with
  | tooDeep => cases h
  | ran c values =>
    rw [isShort] at h
    cases ha : c.arity with
    | variadic => simp [ha] at h
    | fixed count => exact ⟨c, values, count, rfl, ha, by simpa [ha] using h⟩

theorem Stop.not_isShort_reply {stop : Stop} (h : stop.isShort) (limit : Nat) :
    ¬(stop.reply limit).isShort := by
  obtain ⟨c, values, count, rfl, ha, hv⟩ := eq_of_isShort h
  rw [reply, Command.run_of_lt ha hv]
  exact nofun

/-! ## scanning a forest -/

section
variable {r : Registry} {limit depth : Nat} {f : Forest} {rest : List Argument} {values : List Value}
  {noted : Journal}

/-- a forest that is walked to the end puts its values on whatever stack is there -/
theorem Completes.scan (h : f.Completes limit depth values noted) (hf : f.Shaped r rest) :
    r.scan (f.preorder ++ rest) = (r.scan rest).map (values ++ ·) := by
  induction h generalizing rest with
  | nil depth =>
    rw [preorder, List.nil_append]
    cases r.scan rest <;> rfl
  | @leaf depth more values noted hm arg ih =>
    obtain ⟨hc, hmore⟩ := hf
    rw [preorder, List.cons_append, Registry.scan_cons, ih hmore]
    cases r.scan rest with
    | error failure => rfl
    | ok stack => exact Registry.push_plain hc _
  | @call depth c operands more values others noted later hd ho hs hm arg ih1 ih2 =>
    obtain ⟨hc, hmet, hfo, hfm⟩ := hf
    rw [preorder, List.cons_append, List.append_assoc, Registry.scan_cons, ih1 hfo]
    cases ha : c.arity with
    | variadic =>
      rw [ha] at hmet
      obtain ⟨hmore, hrest⟩ := List.append_eq_nil_iff.mp hmet
      have hothers : others = [] := by
        rw [← List.length_eq_zero_iff, hm.length_eq_roots, eq_nil_of_preorder hmore]
        rfl
      rw [hmore, hrest, hothers, Registry.scan_nil]
      show r.push arg (values ++ []) = _
      rw [List.append_nil, Registry.push_variadic hc ha]
      rfl
    | fixed count =>
      have hcount : values.length = count := by
        refine Nat.le_antisymm ?_ (Nat.not_lt.mp fun hlt => hs ?_)
        · rw [ho.length_eq_roots]
          exact (ha ▸ hmet).roots_le
        · rw [Command.run_of_lt ha hlt]
          rfl
      rw [ih2 hfm]
      cases r.scan rest with
      | error failure => rfl
      | ok stack =>
        rw [← hcount] at ha
        exact Registry.push_fixed hc ha _

/-- a walk that reaches the end completes -/
theorem completes_of_reach (h : f.reach limit depth = .ok values) :
    ∃ noted, f.Completes limit depth values noted := by
  have hw := walks_walk limit depth f
  rw [walk_fst, h] at hw
  exact ⟨_, hw.completes rfl⟩

/-- a walk ends early: in a later tree, at a call that stands too deep, among the operands of a call, or
with the command itself -/
inductive EndsAt (limit : Nat) : Nat → Forest → Stop → Prop where
  | behindLeaf {depth : Nat} {more : Forest} {stop : Stop} (hm : EndsAt limit depth more stop)
      (arg : Argument) : EndsAt limit depth (.leaf arg more) stop
  | tooDeep {depth : Nat} (arg : Argument) (c : Command) (operands more : Forest) :
      EndsAt limit depth (.call arg c operands more) .tooDeep
  | inside {depth : Nat} {operands : Forest} {stop : Stop}
      (ho : EndsAt limit (depth + 1) operands stop) (arg : Argument) (c : Command) (more : Forest) :
      EndsAt limit depth (.call arg c operands more) stop
  | ran {depth : Nat} {c : Command} {operands : Forest} {values : List Value} {noted : Journal}
      (ho : operands.Completes limit (depth + 1) values noted) (arg : Argument) (more : Forest) :
      EndsAt limit depth (.call arg c operands more) (.ran c values)
  | behindCall {depth : Nat} {operands more : Forest} {values : List Value} {noted : Journal}
      {stop : Stop} (ho : operands.Completes limit (depth + 1) values noted)
      (hm : EndsAt limit depth more stop) (arg : Argument) (c : Command) :
      EndsAt limit depth (.call arg c operands more) stop

theorem endsAt_of_reach {stop : Stop} (h : f.reach limit depth = .error stop) :
    f.EndsAt limit depth stop := by
  induction f generalizing depth with
  | nil => cases h
  | leaf arg more ih =>
    rw [reach] at h
    cases hr : more.reach limit depth with
    | ok others =>
      rw [hr] at h
      cases h
    | error stop =>
      rw [hr] at h
      cases h
      exact .behindLeaf (ih hr) arg
  | call arg c operands more ih1 ih2 =>
    rw [reach] at h
    split at h
    · cases h
      exact .tooDeep arg c operands more
    cases hro : operands.reach limit (depth + 1) with
    | error stop =>
      rw [hro] at h
      cases h
      exact .inside (ih1 hro) arg c more
    | ok values =>
      obtain ⟨noted, ho⟩ := completes_of_reach hro
      rw [hro] at h
      by_cases hs : (c.run values).stops
      · simp only [if_pos hs] at h
        cases h
        exact .ran ho arg more
      · simp only [if_neg hs] at h
        cases hrm : more.reach limit depth with
        | ok others =>
          rw [hrm] at h
          cases h
        | error stop =>
          rw [hrm] at h
          cases h
          exact .behindCall ho (ih2 hrm) arg c

/-- a command that lacks operands has nothing behind them, and is the first to find too few values -/
theorem EndsAt.scan {stop : Stop} (h : f.EndsAt limit depth stop) (hf : f.Shaped r rest)
    {c : Command} {count : Nat} (hstop : stop = .ran c values) (ha : c.arity = .fixed count)
    (hv : values.length < count) :
    rest = [] ∧ r.scan f.preorder = .error (.arityMismatch c.name count values.length) := by
  induction h generalizing rest with
  | behindLeaf hm arg ih =>
    obtain ⟨hrest, hscan⟩ := ih hf.2 hstop
    rw [preorder, Registry.scan_cons, hscan]
    exact ⟨hrest, rfl⟩
  | tooDeep => cases hstop
  | inside ho arg d more ih =>
    obtain ⟨-, -, hfo, -⟩ := hf
    obtain ⟨hnil, hscan⟩ := ih hfo hstop
    obtain ⟨hmore, hrest⟩ := List.append_eq_nil_iff.mp hnil
    rw [preorder, hmore, List.append_nil, Registry.scan_cons, hscan]
    exact ⟨hrest, rfl⟩
  | ran ho arg more =>
    cases hstop
    obtain ⟨hc, hmet, hfo, -⟩ := hf
    -- fewer operands than the command takes are all that is left
    rw [ha, Arity.MetBy, ← ho.length_eq_roots] at hmet
    have hnil := (hmet.resolve_left (Nat.ne_of_lt hv)).2
    obtain ⟨hmore, hrest⟩ := List.append_eq_nil_iff.mp hnil
    have hscan := ho.scan hfo
    rw [hnil, List.append_nil, Registry.scan_nil] at hscan
    rw [preorder, hmore, List.append_nil, Registry.scan_cons, hscan]
    show _ ∧ r.push arg (values ++ []) = _
    rw [List.append_nil]
    exact ⟨hrest, Registry.push_underflow hc ha hv⟩
  | behindCall ho hm arg d ih =>
    obtain ⟨-, -, hfo, hfm⟩ := hf
    obtain ⟨hrest, hscan⟩ := ih hfm hstop
    have hbelow := ho.scan hfo
    rw [hrest, List.append_nil, hscan] at hbelow
    rw [preorder, Registry.scan_cons, hbelow]
    exact ⟨hrest, rfl⟩

end

end Forest

/-! ## expanding and scanning -/

namespace Registry

/-- **Expanding agrees with a stack that reads the arguments from the last to the first.**  Let nothing
end the walk through the arguments but a command that lacks operands.  Then, if there is room for them,
their expansion stops exactly if a command finds too few values on the stack, and says so of that
command and of these values; otherwise it gives the stack from the top.  There is room for them if and
only if there is for every call that the walk comes to. -/
theorem expandWithin_eq_scan (r : Registry) (room limit : Nat) (args : List Argument)
    (h : ∀ stop, (r.forest .variadic args).reach limit 1 = .error stop → stop.isShort) :
    (∀ e, r.expandWithin room limit 1 .variadic args = some e →
      e.result = (r.scan args).mapError Reply.failed) ∧
    (∀ failure, r.scan args = .error failure →
      ∃ (c : Command) (count got : Nat), r.find? c.name = some c ∧ c.arity = .fixed count ∧
        got < count ∧ failure = .arityMismatch c.name count got) ∧
    ((∃ e, r.expandWithin room limit 1 .variadic args = some e) ↔
      (r.forest .variadic args).Fits room limit 1) := by
  refine ⟨fun e he => ?_, fun failure => underflow_of_scan_error, ?_⟩
  · obtain ⟨hp, hs⟩ := r.parses_forest args
    rw [expandWithin_eq he, result_expand]
    cases hr : (r.forest .variadic args).reach limit 1 with
    | ok values =>
      obtain ⟨noted, hw⟩ := Forest.completes_of_reach hr
      have hscan := hw.scan hs
      rw [List.append_nil, hp, scan_nil] at hscan
      rw [hscan]
      show _ = Except.ok (values ++ [])
      rw [List.append_nil]
      rfl
    | error stop =>
      obtain ⟨c, values, count, rfl, ha, hv⟩ := Forest.Stop.eq_of_isShort (h stop hr)
      obtain ⟨-, hscan⟩ := (Forest.endsAt_of_reach hr).scan hs rfl ha hv
      rw [hp] at hscan
      rw [hscan]
      exact congrArg Except.error (Command.run_of_lt ha hv)
  · -- a command that is refused for its arity does not come to lack an operand
    have hsupplied : (r.forest .variadic args).Supplied limit 1 :=
      Forest.supplied_iff.mpr fun stop hr => Forest.Stop.not_isShort_reply (h stop hr) limit
    rw [← Option.isSome_iff_exists, isSome_expandWithin_iff]
    exact and_iff_left hsupplied

/-- in `add 1 mul 2` the product finds one value only, and the sum is not come to; with two more words
the stack holds the sum of 1 and 6, and the last word below it -/
theorem expandWithin_eq_scan_sum :
    let short := ["add", "1", "mul", "2"].map Argument.ofWord
    let whole := ["add", "1", "mul", "2", "3", "x"].map Argument.ofWord
    (∃ e, builtin.expandWithin 2 64 1 .variadic short = some e ∧
      e.result = .error (.failed (.arityMismatch .mul 2 1))) ∧
    ∃ e, builtin.expandWithin 2 64 1 .variadic whole = some e ∧
      e.result = .ok [.number (.ofBits 0x401C000000000000), .text "x"] := by
  intro short whole
  have hshort : ∀ stop, (builtin.forest .variadic short).reach 64 1 = .error stop →
      stop.isShort :=
    fun _ => Forest.Stop.isShort_of_mapError (by decide +kernel)
  have hwhole : ∀ stop, (builtin.forest .variadic whole).reach 64 1 = .error stop →
      stop.isShort := by
    have hb : ((builtin.forest .variadic whole).reach 64 1).toOption.isSome := by decide +kernel
    intro stop hstop
    rw [hstop] at hb
    cases hb
  have hanswered := expandWithin_eq_some builtin_ofBuiltins (fits_builtin (Nat.le_refl 2)) 64 1
  have hs := hanswered short
  have hw := hanswered whole
  refine ⟨⟨_, hs, ?_⟩, _, hw, ?_⟩
  · rw [(expandWithin_eq_scan builtin 2 64 short hshort).1 _ hs]
    decide +kernel
  · rw [(expandWithin_eq_scan builtin 2 64 whole hwhole).1 _ hw]
    decide +kernel

/-- a sum that takes more operands than there can be room for: the stack holds two values where it looks
for its operands, and nothing but this ends the walk, but its expansion gives nothing at all -/
theorem expandWithin_none_of_greatest_arity :
    let count := 0xFFFFFFFFFFFFFFFF
    let sum : Command := ⟨.add, .fixed count, CommandName.add.handler⟩
    let i : Interpreter := ⟨Registry.builtin.register sum, .default⟩
    let args := ["add", "1", "2"].map Argument.ofWord
    (∀ stop, (i.registry.forest .variadic args).reach 64 1 = .error stop → stop.isShort) ∧
    i.registry.scan args = .error (.arityMismatch .add count 2) ∧
    (i.expand args).result = .error (.failed (.arityMismatch .add count 2)) ∧
    i.registry.expandWithin mostRoom 64 1 .variadic args = none ∧
    i.runWithin mostRoom (.source "print add 1 2") = none := by
  intro count sum i args
  refine ⟨fun _ => Forest.Stop.isShort_of_mapError (by decide +kernel), by decide +kernel,
    by decide +kernel, ?_, ?_⟩
  · rw [← Option.isNone_iff_eq_none]
    decide +kernel
  · rw [← Option.isNone_iff_eq_none]
    decide +kernel

end Registry

end LineScript
