import LineScript.Proofs.Builtins
import LineScript.Proofs.Rules

/-!
# Room for operands

A script is answered if there is room for the operands of every inner command that is come to, whether
these are there or not, and if no handler lacks an operand.

* `Forest.reach`       how far a forest is walked, with what ends the walk;
* `Forest.Fits`        there is room for every call that a walk comes to;
* `Forest.Supplied`    no handler lacks an operand where a walk ends;
* `Interpreter.LineFits`, `Interpreter.Fits`   there is room for a line, and for every line of a program
                       that is run.

What is answered is what the arguments, the line or the program mean, and these conditions say when it
is (`Registry.expandWithin_eq_some_iff`, `Interpreter.runLineWithin_eq_some_iff`,
`Interpreter.runWithin_eq_some_iff`).  Built-in handlers under arities that supply them lack nothing, so
they are answered wherever there is room (`Interpreter.runWithin_eq_some`).
-/

namespace LineScript

/-- results are compared where a walk or a scan is evaluated -/
instance decidableEqExcept {ε α : Type} [DecidableEq ε] [DecidableEq α] :
    DecidableEq (Except ε α)
  | .ok a, .ok b => decidable_of_iff (a = b) ⟨congrArg Except.ok, Except.ok.inj⟩
  | .error a, .error b => decidable_of_iff (a = b) ⟨congrArg Except.error, Except.error.inj⟩
  | .ok _, .error _ => isFalse nofun
  | .error _, .ok _ => isFalse nofun

/-- what is made of an answer is made of the only one that there can be -/
theorem map_eq_some_iff_of_only {α β : Type} {answer? : Option α} {only : α} {q : α → Prop}
    (h : ∀ {a}, answer? = some a ↔ a = only ∧ q a) (g : α → β) {b : β} :
    answer?.map g = some b ↔ b = g only ∧ q only := by
  simp only [Option.map_eq_some_iff, h]
  constructor
  · rintro ⟨a, ⟨rfl, hq⟩, rfl⟩
    exact ⟨rfl, hq⟩
  · rintro ⟨rfl, hq⟩
    exact ⟨only, ⟨rfl, hq⟩, rfl⟩

/-! ## what ends a walk -/

namespace Forest

/-- a call that stands too deep, or a command that stopped, with the values it was given -/
inductive Stop where
  | tooDeep
  | ran (c : Command) (values : List Value)

def Stop.reply (limit : Nat) : Stop → Reply
  | .tooDeep => .failed (.depthExceeded limit)
  | .ran c values => c.run values

/-- the values of a forest whose trees stand at `depth`, or what ends the walk through it -/
def reach (limit depth : Nat) : Forest → Except Stop (List Value)
  | .nil => .ok []
  | .leaf arg more => (more.reach limit depth).map (arg.value :: ·)
  | .call _ c operands more =>
    if limit < depth then .error .tooDeep
    else match operands.reach limit (depth + 1) with
      | .error stop => .error stop
      | .ok values =>
        if (c.run values).stops then .error (.ran c values)
        else (more.reach limit depth).map ((c.run values).outcome.valueD :: ·)

section
variable {limit depth : Nat} {c : Command} {operands : Forest} {values : List Value}

theorem reach_call_of_lt (hd : limit < depth) (arg : Argument) (c : Command)
    (operands more : Forest) : (call arg c operands more).reach limit depth = .error .tooDeep := by
  rw [reach, if_pos hd]

theorem reach_call_of_error (hd : ¬limit < depth) {stop : Stop}
    (ho : operands.reach limit (depth + 1) = .error stop) (arg : Argument) (c : Command)
    (more : Forest) : (call arg c operands more).reach limit depth = .error stop := by
  rw [reach, if_neg hd, ho]

theorem reach_call_of_stops (hd : ¬limit < depth)
    (ho : operands.reach limit (depth + 1) = .ok values) (hs : (c.run values).stops)
    (arg : Argument) (more : Forest) :
    (call arg c operands more).reach limit depth = .error (.ran c values) := by
  rw [reach, if_neg hd, ho]
  simp only [if_pos hs]

theorem reach_call_of_goes_on (hd : ¬limit < depth)
    (ho : operands.reach limit (depth + 1) = .ok values) (hs : ¬(c.run values).stops)
    (arg : Argument) (more : Forest) :
    (call arg c operands more).reach limit depth =
      (more.reach limit depth).map ((c.run values).outcome.valueD :: ·) := by
  rw [reach, if_neg hd, ho]
  simp only [if_neg hs]

end

/-- a walk gives the values that it reaches, or the reply of what ends it -/
theorem walk_fst (limit depth : Nat) (f : Forest) :
    (f.walk limit depth).1 = (f.reach limit depth).mapError (Stop.reply limit) := by
  have hmap : ∀ (v : Value) (reached : Except Stop (List Value)),
      (reached.mapError (Stop.reply limit)).map (v :: ·) =
        (reached.map (v :: ·)).mapError (Stop.reply limit) := by
    intro v reached
    cases reached <;> rfl
  induction f generalizing depth with
  | nil => rfl
  | leaf arg more ih => rw [walk_leaf, ih, hmap, reach]
  | call arg c operands more ih1 ih2 =>
    have ho := ih1 (depth + 1)
    by_cases hd : limit < depth
    · rw [walk_call_of_lt hd, reach_call_of_lt hd]
      rfl
    rcases hw : operands.walk limit (depth + 1) with ⟨result, noted⟩
    rw [hw] at ho
    cases hr : operands.reach limit (depth + 1) with
    | error stop =>
      rw [hr] at ho
      rw [show result = .error (stop.reply limit) from ho] at hw
      rw [walk_call_of_error hd hw, reach_call_of_error hd hr]
      rfl
    | ok values =>
      rw [hr] at ho
      rw [show result = .ok values from ho] at hw
      by_cases hs : (c.run values).stops
      · rw [walk_call_of_stops hd hw hs, reach_call_of_stops hd hr hs]
        rfl
      · rw [walk_call_of_goes_on hd hw hs, ih2, hmap, reach_call_of_goes_on hd hr hs]

theorem reach_eq_ok_iff {limit depth : Nat} {f : Forest} {values : List Value} :
    f.reach limit depth = .ok values ↔ (f.walk limit depth).1 = .ok values := by
  rw [walk_fst]
  cases f.reach limit depth with
  | error stop => exact ⟨nofun, nofun⟩
  | ok reached =>
    exact ⟨fun h => congrArg Except.ok (Except.ok.inj h), fun h => congrArg Except.ok (Except.ok.inj h)⟩

theorem walk_fst_of_tooDeep {limit depth : Nat} {f : Forest}
    (h : f.reach limit depth = .error .tooDeep) :
    (f.walk limit depth).1 = .error (.failed (.depthExceeded limit)) := by
  rw [walk_fst, h]
  rfl

/-! ## what a walk asks for -/

/-- there is room for every call that a walk comes to -/
def Fits (room limit depth : Nat) : Forest → Prop
  | .nil => True
  | .leaf _ more => more.Fits room limit depth
  | .call _ c operands more =>
    depth ≤ limit →
      c.arity.reserved ≤ room ∧ operands.Fits room limit (depth + 1) ∧
      ∀ values, operands.reach limit (depth + 1) = .ok values → ¬(c.run values).stops →
        more.Fits room limit depth

/-- no handler lacks an operand where a walk ends -/
def Supplied (limit depth : Nat) (f : Forest) : Prop :=
  ∀ reply, (f.walk limit depth).1 = .error reply → ¬reply.isShort

section
variable {room limit depth : Nat} {f operands : Forest} {c : Command} {values : List Value}

theorem fits_call_of_lt (hd : limit < depth) (arg : Argument) (c : Command)
    (operands more : Forest) : (call arg c operands more).Fits room limit depth :=
  fun h => absurd hd (Nat.not_lt.mpr h)

theorem fits_call_of_error (hd : ¬limit < depth) {stop : Stop}
    (ho : operands.reach limit (depth + 1) = .error stop) (arg : Argument) (c : Command)
    (more : Forest) : (call arg c operands more).Fits room limit depth ↔
      c.arity.reserved ≤ room ∧ operands.Fits room limit (depth + 1) := by
  simp [Fits, Nat.not_lt.mp hd, ho]

theorem fits_call_of_stops (hd : ¬limit < depth)
    (ho : operands.reach limit (depth + 1) = .ok values) (hs : (c.run values).stops)
    (arg : Argument) (more : Forest) : (call arg c operands more).Fits room limit depth ↔
      c.arity.reserved ≤ room ∧ operands.Fits room limit (depth + 1) := by
  simp [Fits, Nat.not_lt.mp hd, ho, hs]

theorem fits_call_of_goes_on (hd : ¬limit < depth)
    (ho : operands.reach limit (depth + 1) = .ok values) (hs : ¬(c.run values).stops)
    (arg : Argument) (more : Forest) : (call arg c operands more).Fits room limit depth ↔
      c.arity.reserved ≤ room ∧ operands.Fits room limit (depth + 1) ∧
      more.Fits room limit depth := by
  simp [Fits, Nat.not_lt.mp hd, ho, hs]

theorem supplied_iff : f.Supplied limit depth ↔
    ∀ stop, f.reach limit depth = .error stop → ¬(stop.reply limit).isShort := by
  unfold Supplied
  rw [walk_fst]
  cases f.reach limit depth with
  | ok values =>
    constructor
    · intro _ _ hstop
      cases hstop
    · intro _ _ hreply
      cases hreply
  | error stop =>
    constructor
    · intro h _ hstop
      exact Except.error.inj hstop ▸ h _ rfl
    · intro h _ hreply
      exact Except.error.inj hreply ▸ h _ rfl

theorem supplied_nil : nil.Supplied limit depth := by
  intro reply h
  cases h

theorem supplied_of_reach (h : f.reach limit depth = .ok values) : f.Supplied limit depth := by
  rw [supplied_iff, h]
  exact fun _ => nofun

theorem supplied_leaf (arg : Argument) (more : Forest) :
    (leaf arg more).Supplied limit depth ↔ more.Supplied limit depth := by
  rw [supplied_iff, supplied_iff, reach]
  cases more.reach limit depth with
  | ok values => exact ⟨fun _ => nofun, fun _ => nofun⟩
  | error stop => exact Iff.rfl

theorem supplied_call_of_lt (hd : limit < depth) (arg : Argument) (c : Command)
    (operands more : Forest) : (call arg c operands more).Supplied limit depth := by
  intro reply h
  rw [walk_call_of_lt hd] at h
  cases h
  exact nofun

theorem supplied_call_of_error (hd : ¬limit < depth) {stop : Stop}
    (ho : operands.reach limit (depth + 1) = .error stop) (arg : Argument) (c : Command)
    (more : Forest) :
    (call arg c operands more).Supplied limit depth ↔ operands.Supplied limit (depth + 1) := by
  rw [supplied_iff, supplied_iff, reach_call_of_error hd ho, ho]

theorem supplied_call_of_stops (hd : ¬limit < depth)
    (ho : operands.reach limit (depth + 1) = .ok values) (hs : (c.run values).stops)
    (arg : Argument) (more : Forest) :
    (call arg c operands more).Supplied limit depth ↔ ¬(c.run values).isShort := by
  rw [supplied_iff, reach_call_of_stops hd ho hs]
  exact ⟨fun h => h _ rfl, fun h _ hstop => Except.error.inj hstop ▸ h⟩

theorem supplied_call_of_goes_on (hd : ¬limit < depth)
    (ho : operands.reach limit (depth + 1) = .ok values) (hs : ¬(c.run values).stops)
    (arg : Argument) (more : Forest) :
    (call arg c operands more).Supplied limit depth ↔ more.Supplied limit depth := by
  rw [supplied_iff, supplied_iff, reach_call_of_goes_on hd ho hs]
  cases more.reach limit depth with
  | ok values => exact ⟨fun _ => nofun, fun _ => nofun⟩
  | error stop => exact Iff.rfl

end

end Forest

/-! ## arguments -/

namespace Registry

section
variable {r : Registry} {room limit depth : Nat} {wanted : Arity} {arg : Argument} {c : Command}
  {args more : List Argument}

/-- what is given behind an inner command that is not too deep: nothing without room for its operands -/
theorem expandWithin_call_eq_some_iff (hf : ¬wanted.isFull) (hc : r.commandOf? arg = some c)
    (hd : ¬limit < depth) {e : Expansion} :
    r.expandWithin room limit depth wanted (arg :: more) = some e ↔
      c.arity.reserved ≤ room ∧
      ∃ inner, r.expandWithin room limit (depth + 1) c.arity more = some inner ∧
        (match inner.result with
        | .error reply => some ⟨inner.used + 1, .error reply, inner.journal⟩
        | .ok values =>
          (c.run? values).bind fun reply =>
            let called := inner.journal ++ .ofEvent (.expanding c.name depth values)
            if reply.stops then some ⟨inner.used + 1, .error reply, called⟩
            else
              (r.expandWithin room limit depth wanted.pred (more.drop inner.used)).map
                (.after (inner.used + 1) reply.outcome.valueD
                  (called ++ .ofLog reply.outcome.entries))) = some e := by
  rw [expandWithin, if_neg hf, hc]
  by_cases hroom : c.arity.reserved ≤ room
  · simp only [if_neg hd, if_neg (Nat.not_lt.mpr hroom), hroom, true_and]
    exact Option.bind_eq_some_iff
  · simp only [if_neg hd, if_pos (Nat.not_le.mp hroom), hroom, false_and]
    exact iff_of_false (Option.some_ne_none e).symm not_false

/-- expanding gives what a walk through the forest reaches -/
theorem result_expand (r : Registry) (limit depth : Nat) (wanted : Arity) (args : List Argument) :
    (r.expand limit depth wanted args).result =
      ((r.forest wanted args).reach limit depth).mapError (Forest.Stop.reply limit) := by
  rw [← Forest.walk_fst]
  exact congrArg Prod.fst (r.expand_eq_walk limit depth wanted args).1

theorem result_expand_eq_ok_iff {values : List Value} :
    (r.expand limit depth wanted args).result = .ok values ↔
      (r.forest wanted args).reach limit depth = .ok values := by
  rw [Forest.reach_eq_ok_iff, ← (r.expand_eq_walk limit depth wanted args).1]

theorem exists_reach_of_result_expand {reply : Reply}
    (h : (r.expand limit depth wanted args).result = .error reply) :
    ∃ stop, (r.forest wanted args).reach limit depth = .error stop := by
  rw [result_expand] at h
  cases hr : (r.forest wanted args).reach limit depth with
  | error stop => exact ⟨stop, rfl⟩
  | ok values =>
    rw [hr] at h
    cases h

/-- **What is given is what the arguments mean**, and it is given if there is room for every call that
the walk through their forest comes to and no handler lacks an operand. -/
theorem expandWithin_eq_some_iff {e : Expansion} :
    r.expandWithin room limit depth wanted args = some e ↔
      e = r.expand limit depth wanted args ∧ (r.forest wanted args).Fits room limit depth ∧
      (r.forest wanted args).Supplied limit depth := by
  fun_induction Registry.expand r limit depth wanted args generalizing e
  case case1 depth wanted =>
    rw [expandWithin, forest]
    simp [Forest.Fits, Forest.supplied_nil, eq_comm]
  case case2 depth wanted arg more hf =>
    rw [expandWithin, if_pos hf, forest, if_pos hf]
    simp [Forest.Fits, Forest.supplied_nil, eq_comm]
  case case3 depth wanted arg more hf hc ih =>
    rw [expandWithin, if_neg hf, hc, forest, if_neg hf, hc]
    simp only [Forest.Fits, Forest.supplied_leaf]
    exact map_eq_some_iff_of_only ih _
  case case4 depth wanted arg more hf c hc hd =>
    rw [expandWithin, if_neg hf, hc, forest, if_neg hf, hc]
    simp only [if_pos hd, Option.some.injEq, Forest.fits_call_of_lt hd,
      Forest.supplied_call_of_lt hd, and_true]
    exact eq_comm
  -- an inner command asks for room first, and then for what its operands, its handler and the arguments
  -- behind it ask for, as far as the walk gets
  case case5 depth wanted arg more hf c hc hd inner reply hi ih =>
    obtain ⟨stop, hr⟩ := exists_reach_of_result_expand hi
    rw [expandWithin_call_eq_some_iff hf hc hd, forest, if_neg hf, hc]
    simp only [inner] at hi ⊢
    simp only [ih, and_assoc, exists_eq_left, hi, Option.some.injEq,
      Forest.fits_call_of_error hd hr, Forest.supplied_call_of_error hd hr]
    constructor
    · rintro ⟨hroom, hfits, hlong, rfl⟩
      exact ⟨rfl, hroom, hfits, hlong⟩
    · rintro ⟨rfl, hroom, hfits, hlong⟩
      exact ⟨hroom, hfits, hlong, rfl⟩
  case case6 depth wanted arg more hf c hc hd inner values hi reply called hs ih =>
    have hr := result_expand_eq_ok_iff.mp hi
    rw [expandWithin_call_eq_some_iff hf hc hd, forest, if_neg hf, hc]
    simp only [inner, called, reply] at hi hs ⊢
    simp only [ih, and_assoc, exists_eq_left, hi, Option.bind_eq_some_iff,
      Command.run?_eq_some_iff, hs, if_true, Option.some.injEq,
      Forest.supplied_of_reach hr, true_and, Forest.fits_call_of_stops hd hr hs,
      Forest.supplied_call_of_stops hd hr hs]
    constructor
    · rintro ⟨hroom, hfits, hlong, rfl⟩
      exact ⟨rfl, hroom, hfits, hlong⟩
    · rintro ⟨rfl, hroom, hfits, hlong⟩
      exact ⟨hroom, hfits, hlong, rfl⟩
  case case7 depth wanted arg more hf c hc hd inner values hi reply called hs ih1 ih2 =>
    have hr := result_expand_eq_ok_iff.mp hi
    have hu := (r.expand_eq_walk limit (depth + 1) c.arity more).2 hi
    have hlong : ¬(c.run values).isShort := fun h => hs (Reply.stops_of_isShort h)
    rw [expandWithin_call_eq_some_iff hf hc hd, forest, if_neg hf, hc]
    simp only [inner, called, reply] at hi hs hu ih2 ⊢
    rw [hu] at ih2
    simp only [ih1, and_assoc, exists_eq_left, hi, Option.bind_eq_some_iff,
      Command.run?_eq_some_iff, hs, hlong, Forest.supplied_of_reach hr,
      not_false_eq_true, true_and, if_false, hu, Option.map_eq_some_iff, ih2, Bool.false_eq_true,
      Forest.fits_call_of_goes_on hd hr hs, Forest.supplied_call_of_goes_on hd hr hs]
    constructor
    · rintro ⟨hroom, hfits, hmore, hsupplied, rfl⟩
      exact ⟨rfl, hroom, hfits, hmore, hsupplied⟩
    · rintro ⟨rfl, hroom, hfits, hmore, hsupplied⟩
      exact ⟨hroom, hfits, hmore, hsupplied, rfl⟩

theorem expandWithin_eq {e : Expansion} (h : r.expandWithin room limit depth wanted args = some e) :
    e = r.expand limit depth wanted args :=
  (expandWithin_eq_some_iff.mp h).1

theorem isSome_expandWithin_iff : (r.expandWithin room limit depth wanted args).isSome ↔
    (r.forest wanted args).Fits room limit depth ∧ (r.forest wanted args).Supplied limit depth := by
  simp only [Option.isSome_iff_exists, expandWithin_eq_some_iff, exists_eq_left]

/-- no handler lacks an operand among arguments that are stopped by another reply -/
theorem supplied_iff_of_error {reply : Reply}
    (h : (r.expand limit depth wanted args).result = .error reply) :
    (r.forest wanted args).Supplied limit depth ↔ ¬reply.isShort := by
  have hw : ((r.forest wanted args).walk limit depth).1 = .error reply := by
    rw [← (r.expand_eq_walk limit depth wanted args).1]
    exact h
  unfold Forest.Supplied
  rw [hw]
  exact ⟨fun hs => hs _ rfl, fun hs _ hreply => Except.error.inj hreply ▸ hs⟩

end

/-- there is room for every command of a registry -/
def Fits (r : Registry) (room : Nat) : Prop :=
  ∀ {n : CommandName} {c : Command}, r.find? n = some c → c.arity.reserved ≤ room

/-- no built-in command takes more than two operands -/
theorem fits_builtin {room : Nat} (h : 2 ≤ room) : builtin.Fits room := by
  intro n c hc
  cases hc
  refine Nat.le_trans ?_ h
  cases n <;> decide

end Registry

section
variable {r : Registry} {rest : List Argument} {f : Forest}

theorem Forest.Shaped.fits (hf : f.Shaped r rest) {room : Nat} (h : r.Fits room)
    (limit depth : Nat) : f.Fits room limit depth := by
  induction f generalizing rest depth with
  | nil => trivial
  | leaf arg more ih => exact ih hf.2 depth
  | call arg c operands more ih1 ih2 =>
    obtain ⟨hc, -, hfo, hfm⟩ := hf
    exact fun _ => ⟨h (Registry.find?_of_commandOf? hc), ih1 hfo _, fun _ _ _ => ih2 hfm _⟩

theorem Forest.Shaped.supplied (hf : f.Shaped r rest) (h : r.OfBuiltins) (limit depth : Nat) :
    f.Supplied limit depth := by
  intro reply hr
  rcases (walks_walk limit depth f).reply_cases hf hr with rfl | ⟨c, values, hc, rfl⟩
  · exact nofun
  · exact (h hc).not_isShort values

end

/-! ## lines -/

namespace Interpreter

/-- there is room for what a line comes to, given as its words -/
def WordsFit (i : Interpreter) (room : Nat) : List String → Prop
  | [] => True
  | word :: tokens => (i.registry.lookup? word).isSome →
    (i.registry.forest .variadic (tokens.map Argument.ofWord)).Fits room i.config.maxDepth 1

def LineFits (i : Interpreter) (room : Nat) (line : String) : Prop :=
  i.WordsFit room (Text.words line)

section
variable {i : Interpreter} {room : Nat} {word : String} {c : Command} {values : List Value}
  {l : LineRun} {words : List String} {line : String}

theorem dispatch?_eq_some_iff :
    i.dispatch? word values = some l ↔ l = i.dispatch word values ∧ ¬l.reply.isShort := by
  cases hc : i.registry.lookup? word with
  | none =>
    rw [dispatch?, hc, dispatch_of_unknown hc, Option.some.injEq, eq_comm]
    refine ⟨fun h => ⟨h, ?_⟩, fun h => h.1⟩
    rw [h]
    exact nofun
  | some c =>
    rw [dispatch?, hc, dispatch_of_lookup hc]
    simp only [Option.map_eq_some_iff, Command.run?_eq_some_iff]
    constructor
    · rintro ⟨reply, ⟨rfl, hs⟩, rfl⟩
      exact ⟨rfl, hs⟩
    · rintro ⟨rfl, hs⟩
      exact ⟨_, ⟨rfl, hs⟩, rfl⟩

theorem runWordsWithin_of_unknown (h : i.registry.lookup? word = none) (tokens : List String) :
    i.runWordsWithin room (word :: tokens) = some ⟨.failed (.unknownCommand word), .empty⟩ := by
  rw [runWordsWithin, dispatch?, h]

/-- a line is answered if there is room for what it comes to and no handler lacks an operand -/
theorem runWordsWithin_eq_some_iff : i.runWordsWithin room words = some l ↔
    l = i.runWords words ∧ i.WordsFit room words ∧ ¬l.reply.isShort := by
  cases words with
  | nil =>
    rw [runWordsWithin, runWords, Option.some.injEq, eq_comm]
    refine ⟨fun h => ⟨h, trivial, ?_⟩, fun h => h.1⟩
    rw [h]
    exact Bool.false_ne_true
  | cons word tokens =>
    cases hc : i.registry.lookup? word with
    | none =>
      rw [runWordsWithin, runWords, WordsFit, hc]
      simp [dispatch?_eq_some_iff]
    | some c =>
      rw [runWordsWithin, WordsFit, hc]
      simp only [Option.bind_eq_some_iff, Registry.expandWithin_eq_some_iff, and_assoc,
        exists_eq_left, Option.isSome_some, forall_const]
      cases he : (i.expand (tokens.map Argument.ofWord)).result with
      | error reply =>
        rw [runWords_of_error hc he, Registry.supplied_iff_of_error he]
        rw [expand] at he
        simp only [he, Option.some.injEq]
        constructor
        · rintro ⟨hf, hs, rfl⟩
          exact ⟨rfl, hf, hs⟩
        · rintro ⟨rfl, hf, hs⟩
          exact ⟨hf, hs, rfl⟩
      | ok values =>
        have hr := Registry.result_expand_eq_ok_iff.mp he
        rw [runWords_of_ok hc he]
        rw [expand] at he
        simp only [he, Forest.supplied_of_reach hr, true_and, Option.map_eq_some_iff,
          dispatch?_eq_some_iff, and_assoc, exists_eq_left, dispatch_of_lookup hc]
        constructor
        · rintro ⟨hf, hs, rfl⟩
          exact ⟨rfl, hf, hs⟩
        · rintro ⟨rfl, hf, hs⟩
          exact ⟨hf, hs, rfl⟩

theorem wordsFit_iff {tokens : List String} {f : Forest} (hc : i.registry.lookup? word = some c)
    (hf : i.registry.Parses (tokens.map Argument.ofWord) f) :
    i.WordsFit room (word :: tokens) ↔ f.Fits room i.config.maxDepth 1 := by
  rw [WordsFit, hc, hf.eq_forest]
  simp only [Option.isSome_some, forall_const]

theorem runLineWithin_eq_some_iff : i.runLineWithin room line = some l ↔
    l = i.runLine line ∧ i.LineFits room line ∧ ¬l.reply.isShort :=
  runWordsWithin_eq_some_iff

end

/-! ## programs -/

/-- there is room for every line of a program that is run -/
def Fits (i : Interpreter) (room : Nat) (p : Program) : Prop :=
  ∀ numbered ∈ p.effective.take (i.run p).lines.length, i.LineFits room numbered.2

/-- no handler lacks an operand in a run -/
def Supplied (i : Interpreter) (p : Program) : Prop :=
  ∀ numbered ∈ (i.run p).lines, ¬numbered.2.reply.isShort

section
variable {i : Interpreter} {room : Nat} {p : Program}

theorem runLinesWithin_eq_some_iff {lines : List (Nat × String)} {ls : List (Nat × LineRun)} :
    i.runLinesWithin room lines = some ls ↔ ls = i.runLines lines ∧
      (∀ numbered ∈ lines.take ls.length, i.LineFits room numbered.2) ∧
      ∀ numbered ∈ ls, ¬numbered.2.reply.isShort := by
  induction lines generalizing ls with
  | nil =>
    rw [runLinesWithin, runLines, Option.some.injEq, eq_comm]
    refine ⟨fun h => ⟨h, by simp, by simp [h]⟩, fun h => h.1⟩
  | cons numbered more ih =>
    obtain ⟨n, line⟩ := numbered
    rw [runLinesWithin]
    simp only [Option.bind_eq_some_iff, runLineWithin_eq_some_iff, and_assoc, exists_eq_left]
    by_cases hs : (i.runLine line).reply.stops
    · rw [if_pos hs, runLines_of_stops hs, Option.some.injEq]
      constructor
      · rintro ⟨hfits, hlong, rfl⟩
        exact ⟨rfl, List.forall_mem_singleton.mpr hfits, List.forall_mem_singleton.mpr hlong⟩
      · rintro ⟨rfl, hfits, hlong⟩
        exact ⟨hfits (n, line) List.mem_cons_self, hlong _ List.mem_cons_self, rfl⟩
    · rw [if_neg hs, runLines_of_goes_on hs]
      simp only [Option.map_eq_some_iff, ih]
      constructor
      · rintro ⟨hline, hlong, rest, ⟨rfl, hfits, hmore⟩, rfl⟩
        exact ⟨rfl, List.forall_mem_cons.mpr ⟨hline, hfits⟩, List.forall_mem_cons.mpr ⟨hlong, hmore⟩⟩
      · rintro ⟨rfl, hfits, hlong⟩
        obtain ⟨hline, hfits⟩ := List.forall_mem_cons.mp hfits
        obtain ⟨hlong, hmore⟩ := List.forall_mem_cons.mp hlong
        exact ⟨hline, hlong, _, ⟨rfl, hfits, hmore⟩, rfl⟩

/-- **What is answered to a program is its run**, and it is answered if there is room for every line
that is run and no handler lacks an operand. -/
theorem runWithin_eq_some_iff {run : Run} : i.runWithin room p = some run ↔
    run = i.run p ∧ i.Fits room p ∧ i.Supplied p :=
  map_eq_some_iff_of_only runLinesWithin_eq_some_iff Run.mk

theorem evaluateWithin_eq_some_iff {log : List Entry} : i.evaluateWithin room p = some log ↔
    log = i.evaluate p ∧ i.Fits room p ∧ i.Supplied p :=
  map_eq_some_iff_of_only runWithin_eq_some_iff fun run => i.withSentinel run.log

/-- and nothing else goes on the wire -/
theorem parseWithin_eq_some_iff {wire : List String} : i.parseWithin room p = some wire ↔
    wire = i.parse p ∧ i.Fits room p ∧ i.Supplied p :=
  map_eq_some_iff_of_only evaluateWithin_eq_some_iff fun log => log.map Entry.encode

end

end Interpreter

/-! ## built-in handlers -/

theorem Registry.expandWithin_eq_some {r : Registry} (h : r.OfBuiltins) {room : Nat}
    (hroom : r.Fits room) (limit depth : Nat) (args : List Argument) :
    r.expandWithin room limit depth .variadic args = some (r.expand limit depth .variadic args) := by
  have hf := (r.parses_forest args).2
  exact expandWithin_eq_some_iff.mpr ⟨rfl, hf.fits hroom limit depth, hf.supplied h limit depth⟩

namespace Interpreter

section
variable {i : Interpreter} {room : Nat}

theorem lineFits_of_fits (h : i.registry.Fits room) (line : String) : i.LineFits room line := by
  unfold LineFits
  cases Text.words line with
  | nil => trivial
  | cons word tokens =>
    exact fun _ => (i.registry.parses_forest _).2.fits h i.config.maxDepth 1

theorem fits_of_fits (h : i.registry.Fits room) (p : Program) : i.Fits room p :=
  fun numbered _ => lineFits_of_fits h numbered.2

theorem Runs.not_isShort {words : List String} {l : LineRun} (hl : i.Runs words l)
    (h : i.registry.OfBuiltins) : ¬l.reply.isShort := by
  cases hl with
  | blank => exact nofun
  | unknown hc tokens => exact nofun
  | stopped hc hf hw =>
    refine hf.2.supplied h i.config.maxDepth 1 _ ?_
    rw [hw.walk_eq]
  | dispatched hc hf hw => exact (h (Registry.find?_of_lookup? hc).2).not_isShort _

theorem supplied_of_ofBuiltins (h : i.registry.OfBuiltins) (p : Program) : i.Supplied p := by
  intro numbered hmem
  obtain ⟨line, -, hrun⟩ := exists_of_mem_runLines hmem
  rw [hrun]
  exact (i.runs_runLine line).not_isShort h

/-- built-in handlers under arities that supply them are answered wherever there is room -/
theorem runWithin_eq_some (h : i.registry.OfBuiltins) (hroom : i.registry.Fits room) (p : Program) :
    i.runWithin room p = some (i.run p) :=
  runWithin_eq_some_iff.mpr ⟨rfl, fits_of_fits hroom p, supplied_of_ofBuiltins h p⟩

/-- to the built-in commands there is always an answer -/
theorem runWithin_of_builtin (h : i.registry = .builtin) (hroom : 2 ≤ room) (p : Program) :
    i.runWithin room p = some (i.run p) := by
  apply runWithin_eq_some
  · rw [h]
    exact Registry.builtin_ofBuiltins
  · rw [h]
    exact Registry.fits_builtin hroom

end

end Interpreter

end LineScript
