import LineScript.Registry

/-!
# Registries of built-in handlers

A command may run the handler of another name, and under an arity that is not the one of that name.

* `Arity.Supplies`         an arity under which a handler always gets what it reads;
* `Command.OfBuiltin`      a command that runs a built-in handler under such an arity;
* `Registry.OfBuiltins`    a registry of such commands only;
* `Registry.RunsBuiltins`  a registry of built-in handlers under any arities.

A command of the first kind fails for want of operands or on a zero divisor and in no other way
(`Command.OfBuiltin.failed_cases`); under any arity its handler can be left short as well
(`Command.RunsBuiltin.failed_cases`).
-/

namespace LineScript

/-- a command of this arity is never run on fewer than `needs` values -/
def Arity.Supplies (needs : Nat) : Arity → Prop
  | .fixed count => needs ≤ count
  | .variadic => needs = 0

/-- the command runs a built-in handler, which gets all that it reads -/
def Command.OfBuiltin (c : Command) : Prop :=
  ∃ n : CommandName, c.handler = n.handler ∧ c.arity.Supplies n.needs

def Registry.OfBuiltins (r : Registry) : Prop :=
  ∀ {n : CommandName} {c : Command}, r.find? n = some c → c.OfBuiltin

theorem CommandName.builtin_ofBuiltin (n : CommandName) : n.builtin.OfBuiltin := by
  refine ⟨n, rfl, ?_⟩
  cases n <;> simp [builtin, arity, needs, Arity.Supplies]

theorem Registry.builtin_ofBuiltins : Registry.builtin.OfBuiltins := by
  intro n c h
  rw [find?_builtin] at h
  cases h
  exact n.builtin_ofBuiltin

theorem Registry.OfBuiltins.register {r : Registry} (hr : r.OfBuiltins) {c : Command}
    (hc : c.OfBuiltin) : (r.register c).OfBuiltins := by
  intro n d h
  rw [find?_register] at h
  split at h
  · cases h
    exact hc
  · exact hr h

/-- the command runs a built-in handler, which may be left short of what it reads -/
def Command.RunsBuiltin (c : Command) : Prop :=
  ∃ n : CommandName, c.handler = n.handler

def Registry.RunsBuiltins (r : Registry) : Prop :=
  ∀ {n : CommandName} {c : Command}, r.find? n = some c → c.RunsBuiltin

theorem Registry.OfBuiltins.runsBuiltins {r : Registry} (hr : r.OfBuiltins) : r.RunsBuiltins := by
  intro n c h
  obtain ⟨m, hm, -⟩ := hr h
  exact ⟨m, hm⟩

/-! ## how they fail -/

/-- a call either runs the handler or has too few values for it -/
theorem Command.run_cases (c : Command) (values : List Value) :
    ((∀ count, c.arity = .fixed count → count ≤ values.length) ∧ c.run values = c.handler values) ∨
    ∃ count, c.arity = .fixed count ∧ values.length < count ∧
      c.run values = .failed (.arityMismatch c.name count values.length) := by
  cases ha : c.arity with
  | variadic =>
    refine Or.inl ⟨fun count h => ?_, run_variadic ha values⟩
    cases h
  | fixed count =>
    by_cases hv : values.length < count
    · exact Or.inr ⟨count, rfl, hv, run_of_lt ha hv⟩
    · refine Or.inl ⟨fun other h => ?_, run_of_le ha (Nat.not_lt.mp hv)⟩
      cases h
      exact Nat.not_lt.mp hv

theorem Arity.Supplies.needs_le {needs : Nat} {a : Arity} (h : a.Supplies needs)
    {values : List Value} (hv : ∀ count, a = .fixed count → count ≤ values.length) :
    needs ≤ values.length := by
  cases a with
  | fixed count => exact Nat.le_trans h (hv count rfl)
  | variadic =>
    have hz : needs = 0 := h
    rw [hz]
    exact Nat.zero_le _

theorem onOne_failed {g : Value → Reply} {values : List Value} {f : Failure}
    (h : onOne g values = .failed f) :
    (∃ a, g a = .failed f) ∨ values.length < 1 ∧ f = .missingOperand 1 values.length := by
  match values with
  | [] =>
    cases h
    exact Or.inr ⟨Nat.one_pos, rfl⟩
  | a :: rest => exact Or.inl ⟨a, h⟩

theorem onTwo_failed {g : Value → Value → Reply} {values : List Value} {f : Failure}
    (h : onTwo g values = .failed f) :
    (∃ a b, g a b = .failed f) ∨ values.length < 2 ∧ f = .missingOperand 2 values.length := by
  match values with
  | [] =>
    cases h
    exact Or.inr ⟨Nat.two_pos, rfl⟩
  | [a] =>
    cases h
    exact Or.inr ⟨Nat.one_lt_two, rfl⟩
  | a :: b :: rest => exact Or.inl ⟨a, b, h⟩

theorem quotient_failed {a b : Value} {f : Failure} (h : quotient a b = .failed f) :
    f = .divisionByZero := by
  unfold quotient at h
  split at h
  · cases h
    rfl
  · cases h

/-- a handler fails in dividing by zero or because it has too few values -/
theorem CommandName.handler_failed_cases {n : CommandName} {values : List Value} {f : Failure}
    (h : n.handler values = .failed f) :
    f = .divisionByZero ∨
    values.length < n.needs ∧ f = .missingOperand n.needs values.length := by
  cases n with
  | print | warn | error | stop => cases h
  | not =>
    rcases onOne_failed h with ⟨a, h⟩ | hshort
    · cases h
    · exact Or.inr hshort
  | add | sub | mul | pow | equals =>
    rcases onTwo_failed h with ⟨a, b, h⟩ | hshort
    · cases h
    · exact Or.inr hshort
  | div =>
    rcases onTwo_failed h with ⟨a, b, h⟩ | hshort
    · exact Or.inl (quotient_failed h)
    · exact Or.inr hshort

/-- with all that it reads a handler fails only in dividing by zero -/
theorem CommandName.handler_failed {n : CommandName} {values : List Value}
    (hv : n.needs ≤ values.length) {f : Failure} (h : n.handler values = .failed f) :
    f = .divisionByZero := by
  rcases handler_failed_cases h with hzero | ⟨hshort, -⟩
  · exact hzero
  · exact absurd hv (Nat.not_le.mpr hshort)

theorem Command.OfBuiltin.failed_cases {c : Command} (hc : c.OfBuiltin) {values : List Value}
    {f : Failure} (h : c.run values = .failed f) :
    f = .divisionByZero ∨ ∃ count, f = .arityMismatch c.name count values.length := by
  obtain ⟨n, hn, hs⟩ := hc
  rcases c.run_cases values with ⟨hv, hrun⟩ | ⟨count, -, -, hrun⟩
  · rw [hrun, hn] at h
    exact Or.inl (CommandName.handler_failed (hs.needs_le hv) h)
  · rw [hrun] at h
    cases h
    exact Or.inr ⟨count, rfl⟩

/-- under an arity that supplies its handler a command never lacks an operand -/
theorem Command.OfBuiltin.not_isShort {c : Command} (hc : c.OfBuiltin) (values : List Value) :
    ¬(c.run values).isShort := by
  intro h
  cases hr : c.run values with
  | done o =>
    rw [hr] at h
    cases h
  | failed f =>
    rw [hr] at h
    rcases hc.failed_cases hr with rfl | ⟨count, rfl⟩ <;> cases h

theorem Command.RunsBuiltin.failed_cases {c : Command} (hc : c.RunsBuiltin) {values : List Value}
    {f : Failure} (h : c.run values = .failed f) :
    f = .divisionByZero ∨ (∃ count, f = .arityMismatch c.name count values.length) ∨
    ∃ needed, f = .missingOperand needed values.length := by
  obtain ⟨n, hn⟩ := hc
  rcases c.run_cases values with ⟨-, hrun⟩ | ⟨count, -, -, hrun⟩
  · rw [hrun, hn] at h
    rcases CommandName.handler_failed_cases h with hzero | ⟨-, hshort⟩
    · exact Or.inl hzero
    · exact Or.inr (Or.inr ⟨_, hshort⟩)
  · rw [hrun] at h
    cases h
    exact Or.inr (Or.inl ⟨count, rfl⟩)

end LineScript
