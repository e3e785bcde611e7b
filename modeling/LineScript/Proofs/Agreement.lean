import LineScript.Proofs.Forest
import LineScript.Proofs.Layout

/-!
# Registries that agree

A registry is asked for the words of a line and for nothing else: neither for texts between quotes nor
for values that come up while the line is run.  So two registries are as good as each other for a
program if they agree on its words.

* `Command.Alike`               commands that cannot be told apart by running them;
* `Registry.expand_congr`       arguments are expanded alike if the commands that they name are alike;
* `Interpreter.run_congr`       programs are run alike if the commands that their words name are alike;
* `Registry.AgreeOn`            registries with the same command under a name, or both with none.

`Interpreter.run_ignores_uncalled` is the theorem about extending the language.
-/

namespace LineScript

/-- two commands of one name and one arity that give the same reply to all values -/
structure Command.Alike (c d : Command) : Prop where
  name : c.name = d.name
  arity : c.arity = d.arity
  run : ∀ values, c.run values = d.run values

section
variable {found other : Option Command} (h : Option.Rel Command.Alike found other)
include h

theorem eq_none_of_alike (hc : found = none) : other = none := by
  cases h with
  | none => rfl
  | some hcd => cases hc

theorem exists_of_alike {c : Command} (hc : found = some c) : ∃ d, other = some d ∧ c.Alike d := by
  cases h with
  | none => cases hc
  | some hcd =>
    cases hc
    exact ⟨_, rfl, hcd⟩

end

namespace Registry

/-- two registries under a word: neither has a command, or the commands of both are alike -/
def AlikeAt (r s : Registry) (word : String) : Prop :=
  Option.Rel Command.Alike (r.lookup? word) (s.lookup? word)

/-! ## expanding -/

theorem expand_congr {r s : Registry} {limit depth : Nat} {wanted : Arity} {args : List Argument}
    (h : ∀ arg ∈ args, Option.Rel Command.Alike (r.commandOf? arg) (s.commandOf? arg)) :
    r.expand limit depth wanted args = s.expand limit depth wanted args := by
  fun_induction expand r limit depth wanted args
  case case1 depth wanted => rw [expand_nil]
  case case2 depth wanted arg more hf => rw [expand_full s limit depth hf]
  case case3 depth wanted arg more hf hc ih =>
    obtain ⟨harg, hmore⟩ := List.forall_mem_cons.mp h
    rw [expand, if_neg hf, eq_none_of_alike harg hc, ih hmore]
  case case4 depth wanted arg more hf c hc hdeep =>
    obtain ⟨harg, hmore⟩ := List.forall_mem_cons.mp h
    obtain ⟨d, hd, hcd⟩ := exists_of_alike harg hc
    rw [expand, if_neg hf, hd]
    simp only [if_pos hdeep]
  case case5 depth wanted arg more hf c hc hdeep inner reply hi ih =>
    obtain ⟨harg, hmore⟩ := List.forall_mem_cons.mp h
    obtain ⟨d, hd, hcd⟩ := exists_of_alike harg hc
    simp only [inner] at hi ⊢
    rw [expand, if_neg hf, hd]
    simp only [if_neg hdeep, ← hcd.arity, ← ih hmore, hi]
  case case6 depth wanted arg more hf c hc hdeep inner values hi reply called hs ih =>
    obtain ⟨harg, hmore⟩ := List.forall_mem_cons.mp h
    obtain ⟨d, hd, hcd⟩ := exists_of_alike harg hc
    simp only [inner, reply, called] at hi hs ⊢
    rw [expand, if_neg hf, hd]
    simp only [if_neg hdeep, ← hcd.arity, ← hcd.name, ← hcd.run, ← ih hmore, hi, if_pos hs]
  case case7 depth wanted arg more hf c hc hdeep inner values hi reply called hs ih1 ih2 =>
    obtain ⟨harg, hmore⟩ := List.forall_mem_cons.mp h
    obtain ⟨d, hd, hcd⟩ := exists_of_alike harg hc
    have hleft := ih2 fun a ha => hmore a (List.mem_of_mem_drop ha)
    simp only [inner, reply, called] at hi hs hleft ⊢
    rw [expand, if_neg hf, hd]
    simp only [if_neg hdeep, ← hcd.arity, ← hcd.name, ← hcd.run, ← ih1 hmore, hi, if_neg hs, hleft]

end Registry

/-! ## lines and programs -/

namespace Interpreter

section
variable {r s : Registry} {config : Config}

theorem dispatch_congr {word : String} (h : r.AlikeAt s word) (values : List Value) :
    dispatch ⟨r, config⟩ word values = dispatch ⟨s, config⟩ word values := by
  cases hc : r.lookup? word with
  | none =>
    rw [dispatch_of_unknown hc, dispatch_of_unknown (i := ⟨s, config⟩) (eq_none_of_alike h hc)]
  | some c =>
    obtain ⟨d, hd, hcd⟩ := exists_of_alike h hc
    rw [dispatch_of_lookup hc, dispatch_of_lookup (i := ⟨s, config⟩) hd, hcd.run]

theorem runWords_congr {words : List String} (h : ∀ w ∈ words, r.AlikeAt s w) :
    runWords ⟨r, config⟩ words = runWords ⟨s, config⟩ words := by
  cases words with
  | nil => rfl
  | cons word rest =>
    obtain ⟨hword, hrest⟩ := List.forall_mem_cons.mp h
    have hargs : ∀ arg ∈ rest.map Argument.ofWord,
        Option.Rel Command.Alike (r.commandOf? arg) (s.commandOf? arg) := by
      intro arg harg
      obtain ⟨w, hw, rfl⟩ := List.mem_map.mp harg
      rw [r.commandOf?_ofWord, s.commandOf?_ofWord]
      exact hrest w hw
    have hexpand : expand ⟨r, config⟩ (rest.map Argument.ofWord) =
        expand ⟨s, config⟩ (rest.map Argument.ofWord) := Registry.expand_congr hargs
    cases hc : r.lookup? word with
    | none =>
      rw [runWords_of_unknown hc, runWords_of_unknown (i := ⟨s, config⟩) (eq_none_of_alike hword hc)]
    | some c =>
      obtain ⟨d, hd, hcd⟩ := exists_of_alike hword hc
      cases he : (expand ⟨r, config⟩ (rest.map Argument.ofWord)).result with
      | error reply =>
        have he' := he
        rw [hexpand] at he'
        rw [runWords_of_error hc he, runWords_of_error (i := ⟨s, config⟩) hd he', hexpand]
      | ok values =>
        have he' := he
        rw [hexpand] at he'
        rw [runWords_of_ok hc he, runWords_of_ok (i := ⟨s, config⟩) hd he', hexpand, hcd.run]

theorem runLines_congr {lines : List (Nat × String)}
    (h : ∀ numbered ∈ lines, ∀ w ∈ Text.words numbered.2, r.AlikeAt s w) :
    runLines ⟨r, config⟩ lines = runLines ⟨s, config⟩ lines := by
  induction lines with
  | nil => rfl
  | cons numbered more ih =>
    obtain ⟨n, line⟩ := numbered
    obtain ⟨hline, hmore⟩ := List.forall_mem_cons.mp h
    have hsame : runLine ⟨r, config⟩ line = runLine ⟨s, config⟩ line := runWords_congr hline
    rw [runLines, runLines, hsame, ih hmore]

theorem run_congr {p : Program} (h : ∀ tokens ∈ p.wordLines, ∀ w ∈ tokens, r.AlikeAt s w) :
    run ⟨r, config⟩ p = run ⟨s, config⟩ p := by
  have hlines : ∀ numbered ∈ p.effective, ∀ w ∈ Text.words numbered.2, r.AlikeAt s w := by
    intro numbered hmem
    apply h
    rw [← p.words_effective]
    exact List.mem_map_of_mem hmem
  exact congrArg Run.mk (runLines_congr hlines)

end

end Interpreter

/-! ## agreement -/

namespace Registry

/-- two registries under a name: neither has a command, or both have one, of one arity and with one
handler -/
def AgreeOn (r s : Registry) (n : CommandName) : Prop :=
  (r.find? n = none ∧ s.find? n = none) ∨
  ∃ c d, r.find? n = some c ∧ s.find? n = some d ∧ c.arity = d.arity ∧ c.handler = d.handler

theorem agreeOn_of_eq {r s : Registry} {n : CommandName} (h : r.find? n = s.find? n) :
    r.AgreeOn s n := by
  cases hc : r.find? n with
  | none => exact Or.inl ⟨hc, h ▸ hc⟩
  | some c => exact Or.inr ⟨c, c, hc, h ▸ hc, rfl, rfl⟩

theorem AgreeOn.find?_alike {r s : Registry} {n : CommandName} (h : r.AgreeOn s n) :
    Option.Rel Command.Alike (r.find? n) (s.find? n) := by
  rcases h with ⟨hr, hs⟩ | ⟨c, d, hr, hs, harity, hhandler⟩
  · rw [hr, hs]
    exact .none
  · have hname : c.name = d.name := (r.name_of_find hr).trans (s.name_of_find hs).symm
    rw [hr, hs]
    refine .some ⟨hname, harity, fun values => ?_⟩
    rw [Command.run, Command.run, harity, hhandler, hname]

/-- registries that agree on the command that a word names, if it names one, are alike there -/
theorem alikeAt_of_agreeOn {r s : Registry} {word : String}
    (h : ∀ n : CommandName, n.word = word → r.AgreeOn s n) : r.AlikeAt s word := by
  unfold AlikeAt lookup?
  cases hn : CommandName.ofWord? word with
  | none => exact .none
  | some n => exact (h n (CommandName.word_of_ofWord? hn)).find?_alike

end Registry

namespace Interpreter

/-- **Extending the language does not disturb programs that do not use the extension.**  Programs are
run alike under two registries that agree on every command whose name is a word of an effective line:
they log the same, and the same calls and the same end are noted.  So a command may be registered, or
put in the place of another, without a change to any program in which its name is a word of idle lines
only; within longer words and between quotes it does no harm. -/
theorem run_ignores_uncalled (config : Config) (p : Program) :
    (∀ r s : Registry,
      (∀ tokens ∈ p.wordLines, ∀ n : CommandName, n.word ∈ tokens → r.AgreeOn s n) →
      evaluate ⟨r, config⟩ p = evaluate ⟨s, config⟩ p ∧
      (run ⟨r, config⟩ p).events = (run ⟨s, config⟩ p).events) ∧
    ∀ (r : Registry) (c : Command),
      (∀ line ∈ p.rawLines, c.name.word ∈ Text.words line → Idle line) →
      evaluate ⟨r.register c, config⟩ p = evaluate ⟨r, config⟩ p ∧
      (run ⟨r.register c, config⟩ p).events = (run ⟨r, config⟩ p).events := by
  have hagree : ∀ r s : Registry,
      (∀ tokens ∈ p.wordLines, ∀ n : CommandName, n.word ∈ tokens → r.AgreeOn s n) →
      evaluate ⟨r, config⟩ p = evaluate ⟨s, config⟩ p ∧
      (run ⟨r, config⟩ p).events = (run ⟨s, config⟩ p).events := by
    intro r s h
    have hrun : run ⟨r, config⟩ p = run ⟨s, config⟩ p := by
      refine run_congr fun tokens ht w hw => Registry.alikeAt_of_agreeOn ?_
      rintro n rfl
      exact h tokens ht n hw
    refine ⟨?_, congrArg Run.events hrun⟩
    rw [evaluate, evaluate, hrun]
    rfl
  refine ⟨hagree, fun r c h => hagree _ _ fun tokens ht n hn => Registry.agreeOn_of_eq ?_⟩
  rw [Registry.find?_register]
  refine if_neg fun hname => ?_
  obtain ⟨hmem, hact⟩ := List.mem_filter.mp ht
  obtain ⟨line, hline, rfl⟩ := List.mem_map.mp hmem
  rw [hname] at hn
  rw [idle_iff.mp (h line hline hn)] at hact
  cases hact

/-- `add` is written between quotes, inside longer words and in a comment: it makes no difference if it
halts programs, nor if there is nothing but `print` and `warn` -/
theorem run_ignores_uncalled_add :
    let halting : Command := ⟨.add, .variadic, CommandName.stop.handler⟩
    let small := (Registry.empty.register CommandName.print.builtin).register CommandName.warn.builtin
    let p := Program.source "print \"add\" added _LANG\n\t-- add 1 2\nwarn print add!"
    let whole := evaluate ⟨.builtin, .default⟩ p
    whole = [⟨.info, "add added rust"⟩, ⟨.info, "add!"⟩, ⟨.warning, "true"⟩] ∧
    (evaluate ⟨.builtin, .default⟩ p = evaluate ⟨small, .default⟩ p ∧
      (run ⟨.builtin, .default⟩ p).events = (run ⟨small, .default⟩ p).events) ∧
    evaluate ⟨Registry.builtin.register halting, .default⟩ p = whole ∧
    (run ⟨Registry.builtin.register halting, .default⟩ p).events =
      (run ⟨.builtin, .default⟩ p).events := by
  intro halting small p whole
  obtain ⟨hagree, hregister⟩ := run_ignores_uncalled .default p
  have hnames : ∀ n ∈ CommandName.all, ∀ tokens ∈ p.wordLines, n.word ∈ tokens →
      n = .print ∨ n = .warn := by
    decide +kernel
  have hsmall : ∀ tokens ∈ p.wordLines, ∀ n : CommandName, n.word ∈ tokens →
      Registry.builtin.AgreeOn small n := by
    intro tokens ht n hn
    apply Registry.agreeOn_of_eq
    rcases hnames n n.mem_all tokens ht hn with rfl | rfl
    · rfl
    · rfl
  have hadd : ∀ line ∈ p.rawLines, halting.name.word ∈ Text.words line → Idle line := by
    have hlines : ∀ line ∈ p.rawLines, halting.name.word ∈ Text.words line →
        areEffective (Text.words line) = false := by
      decide +kernel
    exact fun line hline hword => idle_iff.mpr (hlines line hline hword)
  exact ⟨by decide +kernel, hagree _ _ hsmall, hregister .builtin halting hadd⟩

end Interpreter

end LineScript
