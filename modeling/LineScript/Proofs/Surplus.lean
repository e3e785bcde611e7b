import LineScript.Proofs.Framing

/-!
# Surplus values

A command of fixed arity refuses fewer values than it takes.  It is given more at the front of a line,
where nothing else could take them, but never inside one.

* `CommandName.handler_take`          a handler that reads its operands by their places does not see
                                      what follows them;
* `joined_take_iff`                   a handler that logs does, as soon as there is something to see;
* `Interpreter.runWords_plain`        a command at the front of a line of plain words;
* `Interpreter.runWords_plain_behind` the same command behind another.

`Interpreter.surplus_ignored_iff` tells when a command ignores what it does not take, and with it when
the two places come to the same.
-/

namespace LineScript

/-! ## operands by their places -/

theorem onOne_take (g : Value → Reply) {count : Nat} (h : 1 ≤ count) (values : List Value) :
    onOne g (values.take count) = onOne g values := by
  obtain ⟨k, rfl⟩ := Nat.exists_eq_add_of_le' h
  cases values with
  | nil => rfl
  | cons a rest => rfl

theorem onTwo_take (g : Value → Value → Reply) {count : Nat} (h : 2 ≤ count)
    (values : List Value) : onTwo g (values.take count) = onTwo g values := by
  obtain ⟨k, rfl⟩ := Nat.exists_eq_add_of_le' h
  match values with
  | [] => rfl
  | [a] => rfl
  | a :: b :: rest => rfl

/-- a handler that does not log sees as many values as it reads -/
theorem CommandName.handler_take {n : CommandName} (hn : n.severity? = none) {count : Nat}
    (hc : n.needs ≤ count) (values : List Value) :
    n.handler (values.take count) = n.handler values := by
  cases n with
  | print | warn | error | stop => cases hn
  | not => exact onOne_take _ hc values
  | add | sub | mul | div | pow | equals => exact onTwo_take _ hc values

/-! ## values that are joined -/

theorem joined_append {a b : List Value} (ha : a ≠ []) (hb : b ≠ []) :
    joined (a ++ b) = joined a ++ " " ++ joined b := by
  unfold joined
  rw [List.map_append, String.intercalate_append_of_ne_nil (by simpa using ha) (by simpa using hb)]

/-- joined values are no text at all only if there is none, or one without text -/
theorem joined_eq_empty_iff {values : List Value} :
    joined values = "" ↔ values = [] ∨ ∃ v, values = [v] ∧ v.display = "" := by
  match values with
  | [] => simp [joined]
  | [v] => simp [joined]
  | v :: w :: rest =>
    have hjoin : joined (v :: w :: rest) = joined [v] ++ " " ++ joined (w :: rest) :=
      joined_append (a := [v]) (by simp) (by simp)
    simp [hjoin]

/-- the front of some values reads as all of them only if nothing is behind it, or if it is empty and
what is behind it has no text -/
theorem joined_take_iff {count : Nat} {values : List Value} (h : count ≤ values.length) :
    joined values = joined (values.take count) ↔
      values.length = count ∨ count = 0 ∧ ∃ v, values = [v] ∧ v.display = "" := by
  rcases Nat.eq_or_lt_of_le h with heq | hlt
  · rw [heq, List.take_length]
    exact ⟨fun _ => Or.inl rfl, fun _ => rfl⟩
  rcases Nat.eq_zero_or_pos count with hzero | hpos
  · have hne : values ≠ [] := List.ne_nil_of_length_pos (Nat.zero_lt_of_lt hlt)
    have hempty : joined (values.take 0) = "" := rfl
    rw [hzero, hempty, joined_eq_empty_iff]
    simp [hne]
  · have hfront : values.take count ≠ [] := by
      simp only [ne_eq, List.take_eq_nil_iff, not_or]
      exact ⟨Nat.ne_of_gt hpos, List.ne_nil_of_length_pos (Nat.zero_lt_of_lt hlt)⟩
    have hback : values.drop count ≠ [] := by
      simpa using hlt
    have hjoin := joined_append hfront hback
    rw [List.take_append_drop] at hjoin
    constructor
    · intro hsame
      rw [hjoin, String.append_assoc] at hsame
      have hlength := congrArg String.length hsame
      simp only [String.length_append] at hlength
      have hspace : " ".length = 1 := rfl
      omega
    · rintro (heq | ⟨hzero, -⟩) <;> omega

/-- of its values a handler that logs tells the joined text and nothing else -/
theorem CommandName.outcome_handler_eq_iff {n : CommandName} {s : Severity}
    (hn : n.severity? = some s) {a b : List Value} :
    (n.handler a).outcome = (n.handler b).outcome ↔ joined a = joined b := by
  constructor
  · intro h
    have hentry := congrArg Outcome.entry? h
    rw [entry?_handler hn, entry?_handler hn] at hentry
    simpa using hentry
  · intro h
    cases n with
    | print | warn => exact congrArg (fun text => Outcome.log _ text) h
    | error | stop => exact congrArg (fun text => Outcome.halt _ text) h
    | add | sub | mul | div | pow | equals | not => cases hn

theorem Command.invoke_take_iff {c : Command} {n : CommandName} {count : Nat}
    (hn : c.handler = n.handler) (ha : c.arity = .fixed count) (hs : n.needs ≤ count)
    {values : List Value} (hv : count ≤ values.length) :
    c.invoke values = c.invoke (values.take count) ↔
      n.severity? = none ∨ values.length = count ∨
        count = 0 ∧ ∃ v, values = [v] ∧ v.display = "" := by
  have hfront : count ≤ (values.take count).length := by
    rw [List.length_take]
    exact Nat.le_min.mpr ⟨Nat.le_refl count, hv⟩
  unfold invoke
  rw [run_of_le ha hv, run_of_le ha hfront, hn]
  cases hsev : n.severity? with
  | none =>
    rw [CommandName.handler_take hsev hs]
    exact ⟨fun _ => Or.inl rfl, fun _ => rfl⟩
  | some s =>
    rw [CommandName.outcome_handler_eq_iff hsev, joined_take_iff hv]
    simp

/-! ## plain words -/

namespace Registry

/-- plain arguments stand for their values, as many as are wanted -/
theorem expand_plain {r : Registry} {args : List Argument}
    (h : ∀ arg ∈ args, r.commandOf? arg = none) {count : Nat} (hc : count ≤ args.length)
    (limit depth : Nat) :
    r.expand limit depth (.fixed count) args =
      ⟨count, .ok ((args.take count).map Argument.value), .empty⟩ := by
  induction args generalizing count with
  | nil =>
    rw [Nat.eq_zero_of_le_zero hc]
    exact r.expand_nil limit depth _
  | cons arg more ih =>
    obtain ⟨harg, hmore⟩ := List.forall_mem_cons.mp h
    cases count with
    | zero => exact r.expand_full limit depth rfl _
    | succ count =>
      rw [expand, harg, if_neg (by simp [Arity.isFull])]
      have hrest := ih hmore (Nat.le_of_succ_le_succ hc)
      show Expansion.after 1 arg.value .empty (r.expand limit depth (.fixed count) more) = _
      rw [hrest, Expansion.after, Nat.add_comm]
      rfl

theorem expand_plain_variadic {r : Registry} {args : List Argument}
    (h : ∀ arg ∈ args, r.commandOf? arg = none) (limit depth : Nat) :
    r.expand limit depth .variadic args =
      ⟨args.length, .ok (args.map Argument.value), .empty⟩ := by
  induction args with
  | nil => exact r.expand_nil limit depth _
  | cons arg more ih =>
    obtain ⟨harg, hmore⟩ := List.forall_mem_cons.mp h
    rw [expand, harg, if_neg (by simp [Arity.isFull])]
    show Expansion.after 1 arg.value .empty (r.expand limit depth .variadic more) = _
    rw [ih hmore, Expansion.after, List.length_cons, Nat.add_comm]
    rfl

end Registry

namespace Interpreter

section
variable {i : Interpreter} {word outer : String} {c d : Command} {tokens : List String} {count : Nat}

theorem commandOf?_of_plain (h : ∀ t ∈ tokens, i.registry.lookup? t = none) :
    ∀ arg ∈ tokens.map Argument.ofWord, i.registry.commandOf? arg = none := by
  intro arg harg
  obtain ⟨t, ht, rfl⟩ := List.mem_map.mp harg
  rw [i.registry.commandOf?_ofWord]
  exact h t ht

/-- the values that plain words stand for -/
def plainValues (tokens : List String) : List Value :=
  tokens.map fun t => (Argument.ofWord t).value

theorem runWords_plain (hc : i.registry.lookup? word = some c)
    (h : ∀ t ∈ tokens, i.registry.lookup? t = none) :
    i.runWords (word :: tokens) =
      ⟨c.run (plainValues tokens), .ofEvent (.dispatching word (plainValues tokens))⟩ := by
  have hexpand : i.expand (tokens.map Argument.ofWord) =
      ⟨tokens.length, .ok (plainValues tokens), .empty⟩ := by
    rw [expand, Registry.expand_plain_variadic (commandOf?_of_plain h), List.length_map,
      List.map_map]
    rfl
  have hok : (i.expand (tokens.map Argument.ofWord)).result = .ok (plainValues tokens) := by
    rw [hexpand]
  rw [runWords_of_ok hc hok, hexpand]
  rfl

/-- behind another command, a command of fixed arity is run on as many values as it takes, and the
other on what it gives and on the values that are left -/
theorem runWords_plain_behind (ho : i.registry.lookup? outer = some d)
    (hc : i.registry.lookup? word = some c) (ha : c.arity = .fixed count)
    (h : ∀ t ∈ tokens, i.registry.lookup? t = none) (hcount : count ≤ tokens.length)
    (hlimit : 1 ≤ i.config.maxDepth) :
    let taken := (plainValues tokens).take count
    let called : Journal := .ofEvent (.expanding c.name 1 taken)
    let values := (c.run taken).outcome.valueD :: (plainValues tokens).drop count
    i.runWords (outer :: word :: tokens) =
      if (c.run taken).stops then ⟨c.run taken, called⟩
      else ⟨d.run values,
        called ++ .ofLog (c.run taken).outcome.entries ++ .ofEvent (.dispatching outer values)⟩ := by
  intro taken called values
  have hplain := commandOf?_of_plain h
  have hbare : Argument.ofWord word = .word word := by
    rw [(Registry.find?_of_lookup? hc).1, Argument.ofWord_word]
  have hroom : count ≤ (tokens.map Argument.ofWord).length := by rwa [List.length_map]
  have hin := Registry.expand_plain hplain hroom i.config.maxDepth (1 + 1)
  have hleft := Registry.expand_plain_variadic
    (fun arg harg => hplain arg (List.mem_of_mem_drop (i := count) harg)) i.config.maxDepth 1
  have htaken : ((tokens.map Argument.ofWord).take count).map Argument.value = taken := by
    rw [List.map_take, List.map_map]
    rfl
  have hvalues : ((tokens.map Argument.ofWord).drop count).map Argument.value =
      (plainValues tokens).drop count := by
    rw [List.map_drop, List.map_map]
    rfl
  have hexpand : i.expand ((word :: tokens).map Argument.ofWord) =
      if (c.run taken).stops then ⟨count + 1, .error (c.run taken), called⟩
      else .after (count + 1) (c.run taken).outcome.valueD
        (called ++ .ofLog (c.run taken).outcome.entries)
        (i.registry.expand i.config.maxDepth 1 .variadic
          ((tokens.map Argument.ofWord).drop count)) := by
    rw [List.map_cons, hbare, expand, Registry.expand, if_neg (by simp [Arity.isFull])]
    rw [show i.registry.commandOf? (.word word) = some c from hc]
    simp only [ha, hin, htaken, if_neg (Nat.not_lt.mpr hlimit)]
    rfl
  by_cases hs : (c.run taken).stops
  · rw [if_pos hs] at hexpand ⊢
    have herror : (i.expand ((word :: tokens).map Argument.ofWord)).result = .error (c.run taken) := by
      rw [hexpand]
    rw [runWords_of_error ho herror, hexpand]
  · rw [if_neg hs, hleft, hvalues] at hexpand
    have hok : (i.expand ((word :: tokens).map Argument.ofWord)).result = .ok values := by
      rw [hexpand]
      rfl
    rw [if_neg hs, runWords_of_ok ho hok, hexpand]
    exact congrArg (fun j => LineRun.mk (d.run values) (j ++ _)) (Journal.append_empty _)

end

/-- **A command ignores the values that it does not take, unless it logs them.**  Let a command run a
built-in handler under a fixed arity that supplies it.  On as many values or more it does what it does
on the first of them exactly if its handler does not log, or if there are no more, or if it takes none
and there is one without text.  This is also when it does the same at the front of a line of plain
words, where it is run on all of them, and behind another command, where it is run on as many as it
takes. -/
theorem surplus_ignored_iff {c : Command} {n : CommandName} {count : Nat}
    (hn : c.handler = n.handler) (ha : c.arity = .fixed count) (hs : n.needs ≤ count) :
    (∀ values : List Value, count ≤ values.length →
      (c.invoke values = c.invoke (values.take count) ↔
        n.severity? = none ∨ values.length = count ∨
          count = 0 ∧ ∃ v, values = [v] ∧ v.display = "")) ∧
    ∀ (i : Interpreter) (word outer : String) (d : Command) (tokens : List String),
      i.registry.lookup? word = some c → i.registry.lookup? outer = some d →
      (∀ t ∈ tokens, i.registry.lookup? t = none) → count ≤ tokens.length →
      1 ≤ i.config.maxDepth →
      let all := plainValues tokens
      let taken := all.take count
      let called : Journal := .ofEvent (.expanding c.name 1 taken)
      let values := (c.run taken).outcome.valueD :: all.drop count
      i.runWords (word :: tokens) = ⟨c.run all, .ofEvent (.dispatching word all)⟩ ∧
      i.runWords (outer :: word :: tokens) =
        (if (c.run taken).stops then ⟨c.run taken, called⟩
        else ⟨d.run values, called ++ .ofLog (c.run taken).outcome.entries
          ++ .ofEvent (.dispatching outer values)⟩) ∧
      ((c.run all).outcome = (c.run taken).outcome ↔
        n.severity? = none ∨ tokens.length = count ∨
          count = 0 ∧ ∃ v, all = [v] ∧ v.display = "") := by
  refine ⟨fun values hv => Command.invoke_take_iff hn ha hs hv, ?_⟩
  intro i word outer d tokens hc ho hplain hcount hlimit all taken called values
  have hall : all.length = tokens.length := List.length_map _
  refine ⟨runWords_plain hc hplain, runWords_plain_behind ho hc ha hplain hcount hlimit, ?_⟩
  have hiff := Command.invoke_take_iff hn ha hs (hall.symm ▸ hcount)
  rwa [hall] at hiff

/-- a sum of three operands adds the first two of five words, at the front of a line and behind a print,
which is left with the last two -/
theorem surplus_ignored_iff_sum :
    let c : Command := ⟨.equals, .fixed 3, CommandName.add.handler⟩
    let i : Interpreter := ⟨Registry.builtin.register c, .default⟩
    let tokens := ["1", "2", "x", "\"add\"", "_LANG"]
    let all : List Value := [.number .one, .number (.ofBits 0x4000000000000000), .text "x",
      .text "add", .text "rust"]
    c.invoke all = c.invoke (all.take 3) ∧
    (i.runWords ("equals" :: tokens)).reply.outcome = c.invoke (all.take 3) ∧
    (i.runWords ("print" :: "equals" :: tokens)).entries = [⟨.info, "3 add rust"⟩] := by
  intro c i tokens all
  have hs : CommandName.add.needs ≤ 3 := by decide
  obtain ⟨hinvoke, hlines⟩ := surplus_ignored_iff (c := c) (n := .add) rfl rfl hs
  have hlookup : i.registry.lookup? "equals" = some c := i.registry.lookup?_word .equals
  have hprint : i.registry.lookup? "print" = some CommandName.print.builtin :=
    i.registry.lookup?_word .print
  obtain ⟨hown, -, hsame⟩ := hlines i "equals" "print" _ tokens hlookup hprint (by decide) (by decide)
    (by decide)
  refine ⟨(hinvoke all (by decide)).mpr (Or.inl rfl), ?_, by decide +kernel⟩
  rw [hown]
  exact (hsame.mpr (Or.inl rfl)).trans (by decide +kernel)

/-- a print and a warning of one value, each given two: the print does not do what it does on the first
alone, and the warning tells both at the front of a line and one behind the print -/
theorem surplus_told_by_print :
    let c : Command := ⟨.print, .fixed 1, CommandName.print.handler⟩
    let warning : Command := ⟨.warn, .fixed 1, CommandName.warn.handler⟩
    let i : Interpreter := ⟨Registry.builtin.register warning, .default⟩
    let values : List Value := [.text "a", .text "b"]
    c.OfBuiltin ∧ 1 ≤ values.length ∧
    c.invoke values = .log .info "a b" ∧ c.invoke (values.take 1) = .log .info "a" ∧
    c.invoke values ≠ c.invoke (values.take 1) ∧
    (i.runWords ["warn", "a", "b"]).entries = [⟨.warning, "a b"⟩] ∧
    (i.runWords ["print", "warn", "a", "b"]).entries = [⟨.warning, "a"⟩, ⟨.info, "true b"⟩] := by
  intro c warning i values
  have hc : c.OfBuiltin := ⟨.print, rfl, Nat.zero_le 1⟩
  exact ⟨hc, by decide, rfl, rfl, by decide, by decide +kernel, by decide +kernel⟩

end Interpreter

end LineScript
