import LineScript.Proofs.Composition
import LineScript.Proofs.Nesting
import LineScript.Proofs.Numerals
import LineScript.Proofs.Quoting

/-!
# Operands between double quotes

A difference, a product, a quotient and a power see their operands as numbers and not as what they are
otherwise.  A bare word that is no truth value counts as the number that it spells, and so it does as a
text: with quotes around it the result is the same.

* `Bare`                        a word that calls nothing, is no truth value and is not quoted;
* `Bare.asNumber_value`         what it counts as, with quotes around it or without;
* `CommandName.handler_asNumber`   the operations that see nothing else of their operands;
* `Interpreter.evaluate_replace`   a line may be replaced by one that logs and stops alike.

`Interpreter.arithmetic_ignores_quotes` puts these together.
-/

namespace LineScript

/-! ## bare words -/

/-- a word that can stand for itself or, between quotes, for a text -/
structure Bare (w : String) : Prop where
  solid : Text.Solid w
  ne_empty : w ≠ ""
  no_command : CommandName.ofWord? w = none
  ne_true : w ≠ "true"
  ne_false : w ≠ "false"
  unquoted : unquote? w.toList = none

/-- the number that a text without white space counts as -/
def spelledNumber (w : String) : Number := (Number.read? w).getD .nan

namespace Bare
variable {w x : String} (h : Bare w)
include h

theorem asNumber_ofLiteral : (Value.ofLiteral w).asNumber = spelledNumber w := by
  rw [Value.ofLiteral, if_neg h.ne_true, if_neg h.ne_false, spelledNumber]
  cases hread : Number.read? w with
  | some n => rfl
  | none =>
    show (Value.text w).asNumber = .nan
    rw [Value.asNumber_of_solid h.solid, hread, Option.getD_none]

/-- the value of a bound word is a text that is no number, and neither is the word -/
theorem asNumber_ofWord : (Argument.ofWord w).value.asNumber = spelledNumber w := by
  unfold Argument.ofWord
  by_cases hversion : w = "_VERSION"
  · rw [hversion]
    decide +kernel
  by_cases hhost : w = "_LANG"
  · rw [hhost]
    decide +kernel
  · have hfree : binding? w = none := by rw [binding?, if_neg hversion, if_neg hhost]
    rw [hfree, h.unquoted]
    exact h.asNumber_ofLiteral

theorem asNumber_value (hx : x ∈ [w, quote w]) :
    (Argument.ofWord x).value.asNumber = spelledNumber w := by
  rcases List.mem_pair.mp hx with rfl | rfl
  · exact h.asNumber_ofWord
  · rw [Argument.ofWord_quote, Argument.value_quoted, Value.asNumber_of_solid h.solid, spelledNumber]

theorem lookup?_eq_none (r : Registry) (hx : x ∈ [w, quote w]) : r.lookup? x = none := by
  rcases List.mem_pair.mp hx with rfl | rfl
  · rw [Registry.lookup?, h.no_command, Option.bind_none]
  · exact r.lookup?_quote w

theorem solid_and_ne_empty (hx : x ∈ [w, quote w]) : Text.Solid x ∧ x ≠ "" := by
  rcases List.mem_pair.mp hx with rfl | rfl
  · exact ⟨h.solid, h.ne_empty⟩
  · exact ⟨h.solid.quote, quote_ne_empty w⟩

end Bare

/-! ## operations on numbers -/

namespace CommandName

/-- a difference, a product, a quotient and a power; a sum is none of these, since it may join texts -/
def isArithmetic : CommandName → Bool
  | .sub | .mul | .div | .pow => true
  | .print | .warn | .error | .stop | .add | .equals | .not => false

section
variable {op : CommandName} (h : op.isArithmetic)
include h

theorem handler_asNumber (a b : Value) :
    op.handler [a, b] = op.handler [.number a.asNumber, .number b.asNumber] := by
  cases op with
  | sub | mul | div | pow => rfl
  | print | warn | error | stop | add | equals | not => cases h

/-- they give a number, or else they divide by zero -/
theorem handler_cases (a b : Value) :
    (∃ n, op.handler [a, b] = .done (.value (.number n))) ∨
      op.handler [a, b] = .failed .divisionByZero := by
  cases op with
  | sub | mul | pow => exact Or.inl ⟨_, rfl⟩
  | div =>
    show (∃ n, quotient a b = .done (.value (.number n))) ∨ quotient a b = .failed .divisionByZero
    unfold quotient
    split
    · exact Or.inr rfl
    · exact Or.inl ⟨_, rfl⟩
  | print | warn | error | stop | add | equals | not => cases h

theorem arity_of_isArithmetic : op.arity = .fixed 2 := by
  cases op with
  | sub | mul | div | pow => rfl
  | print | warn | error | stop | add | equals | not => cases h

end

end CommandName

/-! ## lines -/

namespace Interpreter

/-- where nothing may stand inside a command, a command behind another is too deep -/
theorem runWords_of_no_depth {i : Interpreter} {word outer : String} {c d : Command}
    (ho : i.registry.lookup? outer = some d) (hc : i.registry.lookup? word = some c)
    (hlimit : i.config.maxDepth = 0) (tokens : List String) :
    i.runWords (outer :: word :: tokens) = ⟨.failed (.depthExceeded 0), .empty⟩ := by
  have hexpand : i.expand ((word :: tokens).map Argument.ofWord) =
      ⟨1, .error (.failed (.depthExceeded 0)), .empty⟩ := by
    rw [List.map_cons, expand, Registry.expand, if_neg (by simp [Arity.isFull]),
      i.registry.commandOf?_ofWord, hc, hlimit]
    rfl
  have herror : (i.expand ((word :: tokens).map Argument.ofWord)).result =
      .error (.failed (.depthExceeded 0)) := by
    rw [hexpand]
  rw [runWords_of_error ho herror, hexpand]

/-- a print tells the value of the operation inside it, unless that fails -/
def told : Reply → Reply
  | .done o => .done (.log .info o.valueD.display)
  | .failed f => .failed f

/-- what a print ends with that has an operation inside it: there may be no room for it -/
def printed (limit : Nat) (reply : Reply) : Reply :=
  if limit = 0 then .failed (.depthExceeded 0) else told reply

theorem printed_zero (reply : Reply) : printed 0 reply = .failed (.depthExceeded 0) := if_pos rfl

theorem printed_of_ne_zero {limit : Nat} (h : limit ≠ 0) (reply : Reply) :
    printed limit reply = told reply := if_neg h

/-- it always logs something, if only that it failed -/
theorem printed_entries_ne_nil (limit : Nat) (reply : Reply) :
    (printed limit reply).outcome.entries ≠ [] := by
  by_cases h : limit = 0
  · rw [h, printed_zero]
    exact List.cons_ne_nil _ _
  · rw [printed_of_ne_zero h]
    cases reply <;> exact List.cons_ne_nil _ _

section
variable {op : CommandName} (hop : op.isArithmetic) (config : Config) {a b x y : String} (ha : Bare a)
  (hb : Bare b) (hx : x ∈ [a, quote a]) (hy : y ∈ [b, quote b])
include hop ha hb hx hy

theorem run_operation :
    op.builtin.run [(Argument.ofWord x).value, (Argument.ofWord y).value] =
      op.handler [.number (spelledNumber a), .number (spelledNumber b)] := by
  have hlength : 2 ≤ [(Argument.ofWord x).value, (Argument.ofWord y).value].length := Nat.le_refl 2
  rw [← ha.asNumber_value hx, ← hb.asNumber_value hy, ← CommandName.handler_asNumber hop,
    Command.run_of_le (CommandName.arity_of_isArithmetic hop) hlength]
  rfl

theorem runWords_operation :
    let ran := (Interpreter.mk .builtin config).runWords ["print", op.word, x, y]
    ran.journal.log = [] ∧ ran.reply = printed config.maxDepth
      (op.handler [.number (spelledNumber a), .number (spelledNumber b)]) := by
  intro ran
  have hprint : Registry.builtin.lookup? "print" = some CommandName.print.builtin :=
    Registry.builtin.lookup?_word .print
  have hlookup : Registry.builtin.lookup? op.word = some op.builtin := Registry.builtin.lookup?_word op
  -- with no room inside the print the operation is not reached, and its operands do not matter
  by_cases hlimit : config.maxDepth = 0
  · have hran : ran = ⟨.failed (.depthExceeded 0), .empty⟩ :=
      runWords_of_no_depth hprint hlookup hlimit [x, y]
    rw [hran, hlimit, printed_zero]
    exact ⟨rfl, rfl⟩
  have hplain : ∀ t ∈ [x, y], Registry.builtin.lookup? t = none :=
    List.forall_mem_cons.mpr ⟨ha.lookup?_eq_none _ hx,
      List.forall_mem_singleton.mpr (hb.lookup?_eq_none _ hy)⟩
  have hran : ran = _ := runWords_plain_behind (i := ⟨.builtin, config⟩) hprint hlookup
    (CommandName.arity_of_isArithmetic hop) hplain (Nat.le_refl 2) (Nat.one_le_iff_ne_zero.mpr hlimit)
  have htaken : op.builtin.run ((plainValues [x, y]).take 2) = _ := run_operation hop ha hb hx hy
  have hleft : (plainValues [x, y]).drop 2 = [] := rfl
  simp only [htaken, hleft] at hran
  rcases CommandName.handler_cases hop (.number (spelledNumber a)) (.number (spelledNumber b)) with
    ⟨n, hvalue⟩ | hfailed
  · have hgo : ¬(Reply.done (.value (.number n))).stops := Bool.false_ne_true
    rw [hvalue, if_neg hgo] at hran
    rw [hran, hvalue, printed_of_ne_zero hlimit, told, ← CommandName.run_print]
    exact ⟨rfl, rfl⟩
  · rw [hfailed, if_pos (Reply.stops_failed _)] at hran
    rw [hran, hfailed, printed_of_ne_zero hlimit]
    exact ⟨rfl, rfl⟩

/-- a program of one such line, as a text or as a list -/
theorem run_operation_line :
    let i : Interpreter := ⟨.builtin, config⟩
    let line := " ".intercalate ["print", op.word, x, y]
    let reply := printed config.maxDepth
      (op.handler [.number (spelledNumber a), .number (spelledNumber b)])
    ∀ p ∈ [Program.source line, Program.lines [line]],
      (i.run p).log = reply.outcome.entries ∧ (i.run p).halted = reply.stops := by
  intro i line reply p hp
  have htokens : ∀ t ∈ ["print", op.word, x, y], Text.Solid t ∧ t ≠ "" := by
    simp only [List.forall_mem_cons]
    exact ⟨by decide, ⟨op.solid_word, by cases op <;> decide⟩, ha.solid_and_ne_empty hx,
      hb.solid_and_ne_empty hy, List.forall_mem_nil _⟩
  have heffective : areEffective ["print", op.word, x, y] :=
    congrArg not (CommandName.isComment_word .print)
  have hlines := lines_run_intercalate (i := i) htokens heffective p hp
  obtain ⟨hlog, hreply⟩ := runWords_operation hop config ha hb hx hy
  constructor
  · rw [Run.log, hlines, List.flatMap_singleton]
    show (i.runWords ["print", op.word, x, y]).journal.log ++ _ = _
    rw [hlog, hreply, List.nil_append]
  · have hrun : i.run p = ⟨[(1, i.runWords ["print", op.word, x, y])]⟩ := congrArg Run.mk hlines
    rw [hrun, Run.halted, Run.haltLine?_cons, hreply]
    cases reply.stops <;> rfl

end

/-- a line may be replaced by one that logs and stops alike -/
theorem evaluate_replace (i : Interpreter) {line other : String}
    (hlog : (i.run (.lines [line])).log = (i.run (.lines [other])).log)
    (hhalted : (i.run (.lines [line])).halted = (i.run (.lines [other])).halted)
    (before after : List String) :
    i.evaluate (.lines (before ++ line :: after)) = i.evaluate (.lines (before ++ other :: after)) := by
  have hbehind : (i.run (.lines ([line] ++ after))).log = (i.run (.lines ([other] ++ after))).log := by
    rw [log_append, log_append, hlog, hhalted]
  have hall : (i.run (.lines (before ++ ([line] ++ after)))).log =
      (i.run (.lines (before ++ ([other] ++ after)))).log := by
    rw [log_append, hbehind, ← log_append]
  rw [evaluate, evaluate]
  exact congrArg i.withSentinel hall

/-- **Arithmetic does not see quotes.**  Let a difference, a product, a quotient or a power be printed
of two bare words, and let either or both stand between double quotes.  The log is the same each time,
whatever the settings: it tells the result for the two numbers that the words spell, or that they
divide by zero, or that no command may stand there.  So a program logs the same with the quotes as without them
wherever the line stands in it. -/
theorem arithmetic_ignores_quotes {op : CommandName} (hop : op.isArithmetic) (config : Config)
    {a b : String} (ha : Bare a) (hb : Bare b) :
    let i : Interpreter := ⟨.builtin, config⟩
    let line := fun x y => " ".intercalate ["print", op.word, x, y]
    let reply := printed config.maxDepth
      (op.handler [.number (spelledNumber a), .number (spelledNumber b)])
    ∀ x ∈ [a, quote a], ∀ y ∈ [b, quote b],
      (∀ p ∈ [Program.source (line x y), Program.lines [line x y]],
        i.evaluate p = reply.outcome.entries ∧ i.evaluate p = i.evaluate (.source (line a b))) ∧
      ∀ before after : List String, i.evaluate (.lines (before ++ line x y :: after)) =
        i.evaluate (.lines (before ++ line a b :: after)) := by
  intro i line reply x hx y hy
  have hquoted := run_operation_line hop config ha hb hx hy
  have hbare := run_operation_line hop config ha hb List.mem_cons_self List.mem_cons_self
  have hlogged : ∀ p, (i.run p).log = reply.outcome.entries →
      i.evaluate p = reply.outcome.entries := by
    intro p hp
    rw [evaluate, hp, withSentinel, if_neg (printed_entries_ne_nil _ _)]
  constructor
  · intro p hp
    have hown : i.evaluate p = reply.outcome.entries := hlogged p (hquoted p hp).1
    exact ⟨hown, hown.trans (hlogged _ (hbare _ List.mem_cons_self).1).symm⟩
  · obtain ⟨hlog, hhalted⟩ := hquoted _ (List.mem_pair.mpr (Or.inr rfl))
    obtain ⟨hlog', hhalted'⟩ := hbare _ (List.mem_pair.mpr (Or.inr rfl))
    exact i.evaluate_replace (hlog.trans hlog'.symm) (hhalted.trans hhalted'.symm)

/-- a lone quote is divided by a number that is too small to be one, with quotes around both, and a
warning comes before -/
theorem arithmetic_ignores_quotes_underflow :
    let i : Interpreter := ⟨.builtin, ⟨1, "no output"⟩⟩
    let bare := "print div \" -1e-400"
    let quoted := "print div \"\"\" \"-1e-400\""
    CommandName.div.isArithmetic ∧ Bare "\"" ∧ Bare "-1e-400" ∧
    i.evaluate (.source quoted) = [⟨.error, "Division by zero."⟩] ∧
    i.evaluate (.source quoted) = i.evaluate (.source bare) ∧
    i.evaluate (.lines ["warn w", quoted, "print b"]) =
      i.evaluate (.lines ["warn w", bare, "print b"]) := by
  intro i bare quoted
  have hop : CommandName.div.isArithmetic := rfl
  have ha : Bare "\"" := by constructor <;> decide +kernel
  have hb : Bare "-1e-400" := by constructor <;> decide +kernel
  obtain ⟨hsingle, hprogram⟩ := arithmetic_ignores_quotes hop i.config ha hb
    (quote "\"") (by simp) (quote "-1e-400") (by simp)
  obtain ⟨hentries, hsame⟩ := hsingle (.source quoted) (by decide +kernel)
  refine ⟨hop, ha, hb, hentries.trans (by decide +kernel), hsame, ?_⟩
  exact hprogram ["warn w"] ["print b"]

end Interpreter

end LineScript
