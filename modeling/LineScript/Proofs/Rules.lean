import LineScript.Proofs.Walk

/-!
# The rules of a run

Everything that a walk or a line can do, one rule for each way in which it goes on or ends.  What holds
of all walks is proved by induction on these rules.

* `Forest.Walks`       walking a forest, rule by rule, and `Forest.walks_iff`: this is `Forest.walk`;
* `Forest.Completes`   the walks among them that nothing stops;
* `Forest.Noted`       where the events of a walk come from: each is noted by a call whose operands
                       were walked to the end;
* `Interpreter.Runs`   running a line, rule by rule, and `Interpreter.runs_iff`: this is
                       `Interpreter.runWords`.
-/

namespace LineScript

/-- the values that the command of an event is called on -/
def Event.values : Event → List Value
  | .expanding _ _ values => values
  | .dispatching _ values => values
  | .halted _ => []

namespace Forest

/-! ## walks -/

/-- a forest with its trees at a depth is walked, with this result and these notes -/
inductive Walks (limit : Nat) : Nat → Forest → Except Reply (List Value) → Journal → Prop where
  | nil (depth : Nat) : Walks limit depth .nil (.ok []) .empty
  | leaf {depth : Nat} {more : Forest} {result : Except Reply (List Value)} {noted : Journal}
      (hm : Walks limit depth more result noted) (arg : Argument) :
      Walks limit depth (.leaf arg more) (result.map (arg.value :: ·)) noted
  | tooDeep {depth : Nat} (hd : limit < depth) (arg : Argument) (c : Command)
      (operands more : Forest) :
      Walks limit depth (.call arg c operands more) (.error (.failed (.depthExceeded limit))) .empty
  | inside {depth : Nat} {operands : Forest} {reply : Reply} {noted : Journal} (hd : depth ≤ limit)
      (ho : Walks limit (depth + 1) operands (.error reply) noted) (arg : Argument) (c : Command)
      (more : Forest) : Walks limit depth (.call arg c operands more) (.error reply) noted
  | stops {depth : Nat} {c : Command} {operands : Forest} {values : List Value} {noted : Journal}
      (hd : depth ≤ limit) (ho : Walks limit (depth + 1) operands (.ok values) noted)
      (hs : (c.run values).stops) (arg : Argument) (more : Forest) :
      Walks limit depth (.call arg c operands more) (.error (c.run values))
        (noted ++ .ofEvent (.expanding c.name depth values))
  | goesOn {depth : Nat} {c : Command} {operands more : Forest} {values : List Value}
      {result : Except Reply (List Value)} {noted later : Journal} (hd : depth ≤ limit)
      (ho : Walks limit (depth + 1) operands (.ok values) noted) (hs : ¬(c.run values).stops)
      (hm : Walks limit depth more result later) (arg : Argument) :
      Walks limit depth (.call arg c operands more)
        (result.map ((c.run values).outcome.valueD :: ·))
        (noted ++ .ofEvent (.expanding c.name depth values)
          ++ .ofLog (c.run values).outcome.entries ++ later)

section
variable {r : Registry} {limit depth : Nat} {f : Forest} {result : Except Reply (List Value)}
  {noted : Journal} {rest : List Argument}

theorem walks_walk (limit depth : Nat) (f : Forest) :
    f.Walks limit depth (f.walk limit depth).1 (f.walk limit depth).2 := by
  induction f generalizing depth with
  | nil => exact .nil depth
  | leaf arg more ih => exact .leaf (ih depth) arg
  | call arg c operands more ih1 ih2 =>
    by_cases hd : limit < depth
    · rw [walk_call_of_lt hd]
      exact .tooDeep hd arg c operands more
    have ho := ih1 (depth + 1)
    rcases hw : operands.walk limit (depth + 1) with ⟨inner, noted⟩
    rw [hw] at ho
    cases inner with
    | error reply =>
      rw [walk_call_of_error hd hw]
      exact .inside (Nat.not_lt.mp hd) ho arg c more
    | ok values =>
      by_cases hs : (c.run values).stops
      · rw [walk_call_of_stops hd hw hs]
        exact .stops (Nat.not_lt.mp hd) ho hs arg more
      · rw [walk_call_of_goes_on hd hw hs]
        exact .goesOn (Nat.not_lt.mp hd) ho hs (ih2 depth) arg

theorem Walks.walk_eq (h : f.Walks limit depth result noted) :
    f.walk limit depth = (result, noted) := by
  induction h with
  | nil depth => exact walk_nil limit depth
  | leaf hm arg ih => rw [walk_leaf, ih]
  | tooDeep hd arg c operands more => exact walk_call_of_lt hd arg c operands more
  | inside hd ho arg c more ih => exact walk_call_of_error (Nat.not_lt.mpr hd) ih arg more
  | stops hd ho hs arg more ih => exact walk_call_of_stops (Nat.not_lt.mpr hd) ih hs arg more
  | goesOn hd ho hs hm arg ih1 ih2 =>
    rw [walk_call_of_goes_on (Nat.not_lt.mpr hd) ih1 hs, ih2]

theorem walks_iff : f.Walks limit depth result noted ↔ f.walk limit depth = (result, noted) := by
  constructor
  · exact Walks.walk_eq
  · intro h
    have hw := walks_walk limit depth f
    rwa [h] at hw

/-! ## walks that nothing stops -/

/-- a forest is walked to the end, with a value for each tree -/
inductive Completes (limit : Nat) : Nat → Forest → List Value → Journal → Prop where
  | nil (depth : Nat) : Completes limit depth .nil [] .empty
  | leaf {depth : Nat} {more : Forest} {values : List Value} {noted : Journal}
      (hm : Completes limit depth more values noted) (arg : Argument) :
      Completes limit depth (.leaf arg more) (arg.value :: values) noted
  | call {depth : Nat} {c : Command} {operands more : Forest} {values others : List Value}
      {noted later : Journal} (hd : depth ≤ limit)
      (ho : Completes limit (depth + 1) operands values noted) (hs : ¬(c.run values).stops)
      (hm : Completes limit depth more others later) (arg : Argument) :
      Completes limit depth (.call arg c operands more) ((c.run values).outcome.valueD :: others)
        (noted ++ .ofEvent (.expanding c.name depth values)
          ++ .ofLog (c.run values).outcome.entries ++ later)

theorem Walks.completes (h : f.Walks limit depth result noted) {values : List Value}
    (hr : result = .ok values) : f.Completes limit depth values noted := by
  induction h generalizing values with
  | nil depth =>
    cases hr
    exact .nil depth
  | @leaf depth more result noted hm arg ih =>
    cases result with
    | error reply => cases hr
    | ok vs =>
      cases hr
      exact .leaf (ih rfl) arg
  | tooDeep => cases hr
  | inside => cases hr
  | stops => cases hr
  | @goesOn depth c operands more vs result noted later hd ho hs hm arg ih1 ih2 =>
    cases result with
    | error reply => cases hr
    | ok ws =>
      cases hr
      exact .call hd (ih1 rfl) hs (ih2 rfl) arg

section
variable {values : List Value}

theorem Completes.walks (h : f.Completes limit depth values noted) :
    f.Walks limit depth (.ok values) noted := by
  induction h with
  | nil depth => exact .nil depth
  | leaf hm arg ih => exact .leaf ih arg
  | call hd ho hs hm arg ih1 ih2 => exact .goesOn hd ih1 hs ih2 arg

theorem Completes.length_eq_roots (h : f.Completes limit depth values noted) :
    values.length = f.roots := by
  induction h with
  | nil depth => rfl
  | leaf hm arg ih => rw [List.length_cons, ih, roots]
  | call hd ho hs hm arg ih1 ih2 => rw [List.length_cons, ih2, roots]

/-- what holds of plain arguments and passes from the operands of a call to its value holds of all
values -/
theorem Completes.forall_values {V : Value → Prop} (h : f.Completes limit depth values noted)
    (hf : f.Shaped r rest)
    (hcall : ∀ {c values}, r.find? c.name = some c → (∀ v ∈ values, V v) →
      ¬(c.run values).stops → V (c.run values).outcome.valueD)
    (hplain : ∀ arg ∈ f.preorder, V arg.value) : ∀ v ∈ values, V v := by
  induction h generalizing rest with
  | nil depth => simp
  | leaf hm arg ih =>
    obtain ⟨harg, hmore⟩ := List.forall_mem_cons.mp hplain
    exact List.forall_mem_cons.mpr ⟨harg, ih hf.2 hmore⟩
  | call hd ho hs hm arg ih1 ih2 =>
    obtain ⟨hc, -, hfo, hfm⟩ := hf
    obtain ⟨hbelow, hmore⟩ := List.forall_mem_append.mp (List.forall_mem_cons.mp hplain).2
    have hin := hcall (Registry.find?_of_commandOf? hc) (ih1 hfo hbelow) hs
    exact List.forall_mem_cons.mpr ⟨hin, ih2 hfm hmore⟩

end

/-! ## what stops a walk -/

/-- what stops a walk is a call that stands too deep or a registered command -/
theorem Walks.reply_cases (h : f.Walks limit depth result noted) (hf : f.Shaped r rest)
    {reply : Reply} (hr : result = .error reply) :
    reply = .failed (.depthExceeded limit) ∨
    ∃ c values, r.find? c.name = some c ∧ reply = c.run values := by
  induction h generalizing rest with
  | nil depth => cases hr
  | @leaf depth more result noted hm arg ih =>
    cases result with
    | error other => exact ih hf.2 (by simpa [Except.map] using hr)
    | ok vs => cases hr
  | tooDeep hd arg c operands more =>
    cases hr
    exact Or.inl rfl
  | inside hd ho arg c more ih => exact ih hf.2.2.1 hr
  | @stops depth c operands values noted hd ho hs arg more ih =>
    cases hr
    exact Or.inr ⟨c, values, Registry.find?_of_commandOf? hf.1, rfl⟩
  | @goesOn depth c operands more vs result noted later hd ho hs hm arg ih1 ih2 =>
    cases result with
    | error other => exact ih2 hf.2.2.2 (by simpa [Except.map] using hr)
    | ok ws => cases hr

/-! ## where events come from -/

/-- an event of a call: of a registered command, at a depth within the limit, on the values of operands
that were walked to the end and that are no more than the command takes -/
inductive Noted (r : Registry) (limit depth : Nat) (args : List Argument) : Event → Prop where
  | call {c : Command} {d : Nat} {operands : Forest} {rest : List Argument} {values : List Value}
      {noted : Journal} (hc : r.find? c.name = some c) (hd : depth ≤ d) (hl : d ≤ limit)
      (hf : operands.Shaped r rest) (hm : c.arity.MetBy operands.roots rest)
      (ha : operands.preorder ⊆ args) (hw : operands.Completes limit (d + 1) values noted) :
      Noted r limit depth args (.expanding c.name d values)

theorem Noted.mono {shallow : Nat} {args all : List Argument} {e : Event}
    (h : Noted r limit depth args e) (hd : shallow ≤ depth) (ha : args ⊆ all) :
    Noted r limit shallow all e := by
  cases h with
  | call hc hdepth hl hf hm hsub hw =>
    exact .call hc (Nat.le_trans hd hdepth) hl hf hm (List.Subset.trans hsub ha) hw

theorem operands_subset_preorder (arg : Argument) (c : Command) (operands more : Forest) :
    operands.preorder ⊆ (call arg c operands more).preorder :=
  fun _ h => List.mem_cons_of_mem _ (List.mem_append_left _ h)

theorem more_subset_preorder (arg : Argument) (c : Command) (operands more : Forest) :
    more.preorder ⊆ (call arg c operands more).preorder :=
  fun _ h => List.mem_cons_of_mem _ (List.mem_append_right _ h)

theorem Walks.noted_of_mem (h : f.Walks limit depth result noted) (hf : f.Shaped r rest)
    {e : Event} (he : e ∈ noted.events) : Noted r limit depth f.preorder e := by
  induction h generalizing rest with
  | nil depth => cases he
  | leaf hm arg ih => exact (ih hf.2 he).mono (Nat.le_refl _) (List.subset_cons_self _ _)
  | tooDeep => cases he
  | @inside depth operands reply noted hd ho arg c more ih =>
    have hsub := operands_subset_preorder arg c operands more
    exact (ih hf.2.2.1 he).mono (Nat.le_succ _) hsub
  | @stops depth c operands values noted hd ho hs arg more ih =>
    have hsub := operands_subset_preorder arg c operands more
    obtain ⟨hc, hmet, hfo, -⟩ := hf
    rw [Journal.append_events, List.mem_append] at he
    rcases he with he | he
    · exact (ih hfo he).mono (Nat.le_succ _) hsub
    · rw [List.mem_singleton.mp he]
      exact .call (Registry.find?_of_commandOf? hc) (Nat.le_refl _) hd hfo hmet hsub (ho.completes rfl)
  | @goesOn depth c operands more values result noted later hd ho hs hm arg ih1 ih2 =>
    have hsub := operands_subset_preorder arg c operands more
    have hsub' := more_subset_preorder arg c operands more
    obtain ⟨hc, hmet, hfo, hfm⟩ := hf
    simp only [Journal.append_events, Journal.ofLog, List.append_nil, List.mem_append] at he
    rcases he with (he | he) | he
    · exact (ih1 hfo he).mono (Nat.le_succ _) hsub
    · rw [List.mem_singleton.mp he]
      exact .call (Registry.find?_of_commandOf? hc) (Nat.le_refl _) hd hfo hmet hsub (ho.completes rfl)
    · exact (ih2 hfm he).mono (Nat.le_refl _) hsub'

end

end Forest

/-! ## lines -/

namespace Interpreter

/-- the words of a line are run, with this reply and these notes before it -/
inductive Runs (i : Interpreter) : List String → LineRun → Prop where
  | blank : i.Runs [] ⟨.done .nothing, .empty⟩
  | unknown {word : String} (h : i.registry.lookup? word = none) (tokens : List String) :
      i.Runs (word :: tokens) ⟨.failed (.unknownCommand word), .empty⟩
  | stopped {word : String} {c : Command} {tokens : List String} {f : Forest} {reply : Reply}
      {noted : Journal} (hc : i.registry.lookup? word = some c)
      (hf : i.registry.Parses (tokens.map Argument.ofWord) f)
      (hw : f.Walks i.config.maxDepth 1 (.error reply) noted) :
      i.Runs (word :: tokens) ⟨reply, noted⟩
  | dispatched {word : String} {c : Command} {tokens : List String} {f : Forest}
      {values : List Value} {noted : Journal} (hc : i.registry.lookup? word = some c)
      (hf : i.registry.Parses (tokens.map Argument.ofWord) f)
      (hw : f.Walks i.config.maxDepth 1 (.ok values) noted) :
      i.Runs (word :: tokens) ⟨c.run values, noted ++ .ofEvent (.dispatching word values)⟩

variable {i : Interpreter}

theorem runs_runWords (i : Interpreter) (words : List String) : i.Runs words (i.runWords words) := by
  cases words with
  | nil => exact .blank
  | cons word tokens =>
    cases hc : i.registry.lookup? word with
    | none =>
      rw [runWords_of_unknown hc]
      exact .unknown hc tokens
    | some c =>
      have hf := i.registry.parses_forest (tokens.map Argument.ofWord)
      rcases hw : Forest.walk i.config.maxDepth 1 (i.registry.forest .variadic _) with
        ⟨result, noted⟩
      cases result with
      | error reply =>
        rw [runWords_of_walk_error hc hf hw]
        exact .stopped hc hf (Forest.walks_iff.mpr hw)
      | ok values =>
        rw [runWords_of_walk_ok hc hf hw]
        exact .dispatched hc hf (Forest.walks_iff.mpr hw)

theorem runs_iff {words : List String} {l : LineRun} :
    i.Runs words l ↔ i.runWords words = l := by
  constructor
  · intro h
    cases h with
    | blank => rfl
    | unknown hc tokens => exact runWords_of_unknown hc
    | stopped hc hf hw => exact runWords_of_walk_error hc hf hw.walk_eq
    | dispatched hc hf hw => exact runWords_of_walk_ok hc hf hw.walk_eq
  · rintro rfl
    exact i.runs_runWords words

theorem runs_runLine (i : Interpreter) (line : String) :
    i.Runs (Text.words line) (i.runLine line) :=
  i.runs_runWords (Text.words line)

/-! ## programs -/

/-- what was run are lines of the program that do something -/
theorem exists_of_mem_runLines {lines : List (Nat × String)} {numbered : Nat × LineRun}
    (h : numbered ∈ i.runLines lines) :
    ∃ line, (numbered.1, line) ∈ lines ∧ numbered.2 = i.runLine line := by
  induction lines with
  | nil => cases h
  | cons first more ih =>
    obtain ⟨n, line⟩ := first
    by_cases hs : (i.runLine line).reply.stops
    · rw [runLines_of_stops hs, List.mem_singleton] at h
      rw [h]
      exact ⟨line, List.mem_cons_self, rfl⟩
    · rw [runLines_of_goes_on hs, List.mem_cons] at h
      rcases h with h | h
      · rw [h]
        exact ⟨line, List.mem_cons_self, rfl⟩
      · obtain ⟨other, hmem, hrun⟩ := ih h
        exact ⟨other, List.mem_cons_of_mem _ hmem, hrun⟩

/-- an event of a run is the halt or was noted in a line of the program -/
theorem mem_events_cases {p : Program} {e : Event} (h : e ∈ (i.run p).events) :
    (∃ n, e = .halted n) ∨ ∃ numbered ∈ p.effective, e ∈ (i.runLine numbered.2).journal.events := by
  obtain ⟨⟨n, l⟩, hmem, he⟩ := List.mem_flatMap.mp h
  rcases List.mem_append.mp he with he | he
  · obtain ⟨line, hl, hrun⟩ := exists_of_mem_runLines hmem
    rw [show l = i.runLine line from hrun] at he
    exact Or.inr ⟨(n, line), hl, he⟩
  · split at he
    · exact Or.inl ⟨n, List.mem_singleton.mp he⟩
    · cases he

end Interpreter

end LineScript
