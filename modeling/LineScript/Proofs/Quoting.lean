import LineScript.Proofs.Halting
import LineScript.Proofs.Layout
import LineScript.Proofs.Surplus

/-!
# Texts between double quotes

A text without white space can be handed to a command as it is: between double quotes nothing of it is
bound, a command, a number or a truth value.

* `quote`                the word of a text;
* `Forest.plain?`        what a call is given as it stands, and in which places;
* `Forest.calling`       the calls of a forest, in the order in which they are run;
* `Forest.ValuedBy`      values of which each plain argument stands in its place;
* `Forest.Walks.calls`   the events of a walk are its first calls, on values of their trees.

`Interpreter.quotes_escape` puts these together.
-/

namespace LineScript

/-! ## words -/

/-- the word of a text: the text between double quotes -/
def quote (t : String) : String := "\"" ++ t ++ "\""

theorem toList_quote (t : String) : (quote t).toList = '"' :: (t.toList ++ ['"']) := by
  simp [quote]

theorem quote_ne_empty (t : String) : quote t ≠ "" := by
  intro h
  have hchars := congrArg String.toList h
  rw [toList_quote] at hchars
  cases hchars

theorem Text.Solid.quote {t : String} (h : Text.Solid t) : Text.Solid (quote t) :=
  ((by decide : Text.Solid "\"").append h).append (by decide)

namespace Text

/-- solid words with single spaces between them are the words of the line -/
theorem laidOut_intercalate {tokens : List String} (h : ∀ t ∈ tokens, Solid t ∧ t ≠ "") :
    LaidOut (tokens.map String.toList) (" ".intercalate tokens).toList := by
  induction tokens with
  | nil => exact .blank (by simp)
  | cons t tokens ih =>
    obtain ⟨⟨hsolid, hne⟩, htokens⟩ := List.forall_mem_cons.mp h
    have hchars : t.toList ≠ [] := fun hnil => hne (String.toList_eq_nil_iff.mp hnil)
    by_cases hn : tokens = []
    · have hnone : ∀ c ∈ ([] : List Char), isBlank c := by simp
      have hlast := (LaidOut.blank hnone).word_append hchars hsolid (by simp)
      rw [hn, String.intercalate_singleton]
      rwa [List.append_nil] at hlast
    · have hspace : isBlank ' ' := by decide
      rw [String.intercalate_cons_of_ne_nil hn, String.toList_append, String.toList_append,
        List.append_assoc, List.map_cons]
      refine ((ih htokens).cons_blank hspace).word_append hchars hsolid ?_
      intro c hc
      cases hc
      exact hspace

theorem words_intercalate {tokens : List String} (h : ∀ t ∈ tokens, Solid t ∧ t ≠ "") :
    words (" ".intercalate tokens) = tokens := by
  rw [words, (laidOut_intercalate h).wordChars_eq, List.map_map]
  simp

end Text

theorem binding?_quote (t : String) : binding? (quote t) = none := by
  have hne : ∀ word : String, word.toList.head? ≠ some '"' → quote t ≠ word := by
    rintro word hword rfl
    rw [toList_quote] at hword
    exact hword rfl
  rw [binding?, if_neg (hne _ (by decide)), if_neg (hne _ (by decide))]

theorem unquote?_eq_some_iff {cs inner : List Char} :
    unquote? cs = some inner ↔ cs = '"' :: (inner ++ ['"']) := by
  constructor
  · intro h
    unfold unquote? at h
    split at h
    · rename_i rest
      split at h
      · rename_i hlast
        cases h
        rw [List.dropLast_append_getLast? _ hlast]
      · cases h
    · cases h
  · rintro rfl
    exact unquote?_quoted inner

namespace Argument

theorem ofWord_quote (t : String) : ofWord (quote t) = .quoted t := by
  rw [ofWord, binding?_quote, toList_quote]
  simp only [unquote?_quoted, String.ofList_toList]

theorem ofWord_eq_quoted_iff {w t : String} : ofWord w = .quoted t ↔ w = quote t := by
  constructor
  · intro h
    unfold ofWord at h
    split at h
    · cases h
    · split at h
      · rename_i cs hcs
        cases h
        apply String.toList_inj.mp
        rw [toList_quote, String.toList_ofList]
        exact unquote?_eq_some_iff.mp hcs
      · cases h
  · rintro rfl
    exact ofWord_quote t

theorem count_quoted (tokens : List String) (t : String) :
    (tokens.map ofWord).count (.quoted t) = tokens.count (quote t) := by
  rw [List.count_eq_countP, List.countP_map, List.count_eq_countP]
  refine List.countP_congr fun w _ => ?_
  simp only [Function.comp_apply, beq_iff_eq, ofWord_eq_quoted_iff]

end Argument

namespace CommandName

theorem isComment_word (n : CommandName) : isComment n.word = false := by
  cases n <;> decide

theorem stops_handler {n : CommandName} {s : Severity} (h : n.severity? = some s)
    (values : List Value) : (n.handler values).stops = s.halts := by
  cases n with
  | print | warn | error | stop =>
    cases h
    rfl
  | add | sub | mul | div | pow | equals | not => cases h

end CommandName

theorem Registry.lookup?_quote (r : Registry) (t : String) : r.lookup? (quote t) = none := by
  rw [← r.commandOf?_ofWord, Argument.ofWord_quote]
  exact r.commandOf?_quoted t

/-! ## what a call is given -/

namespace Forest

/-- the roots: a plain argument, or none where a command is called -/
def plain? : Forest → List (Option Argument)
  | .nil => []
  | .leaf arg more => some arg :: more.plain?
  | .call _ _ _ more => none :: more.plain?

/-- the calls in the order in which they are run, each with the trees below it -/
def calling : Forest → List (Command × Forest)
  | .nil => []
  | .leaf _ more => more.calling
  | .call _ c operands more => operands.calling ++ (c, operands) :: more.calling

/-- a value for each root, and for a plain argument its own -/
def ValuedBy (f : Forest) (values : List Value) : Prop :=
  List.Forall₂ (fun root v => ∀ arg, root = some arg → v = arg.value) f.plain? values

section
variable {r : Registry} {limit depth : Nat} {f : Forest} {rest : List Argument}

theorem ValuedBy.getElem?_of_plain {values : List Value} (h : f.ValuedBy values) {k : Nat}
    {arg : Argument} (hk : f.plain?[k]? = some (some arg)) : values[k]? = some arg.value := by
  have hrel := List.forall₂_iff_get.mp h
  obtain ⟨hlt, hroot⟩ := List.getElem?_eq_some_iff.mp hk
  have hvalue := hrel.2 k hlt (hrel.1 ▸ hlt) arg hroot
  rw [← hvalue]
  exact List.getElem?_eq_getElem (hrel.1 ▸ hlt)

theorem Completes.valuedBy {values : List Value} {noted : Journal}
    (h : f.Completes limit depth values noted) : f.ValuedBy values := by
  induction h with
  | nil depth => exact .nil
  | leaf hm arg ih =>
    refine .cons ?_ ih
    rintro _ ⟨⟩
    rfl
  | call hd ho hs hm arg ih1 ih2 =>
    refine .cons ?_ ih2
    rintro _ ⟨⟩

/-- an argument that calls nothing is given to one call, or stands at a root -/
theorem Shaped.count_plain (h : f.Shaped r rest) {arg : Argument} (ha : r.commandOf? arg = none) :
    (f.calling.flatMap fun call => call.2.plain?).count (some arg) + f.plain?.count (some arg) =
      f.preorder.count arg := by
  induction f generalizing rest with
  | nil => rfl
  | leaf a more ih =>
    have hmore := ih h.2
    have hroot : (some a == some arg) = (a == arg) := rfl
    rw [calling, plain?, preorder, List.count_cons, List.count_cons, hroot, ← Nat.add_assoc, hmore]
  | call a c operands more ih1 ih2 =>
    obtain ⟨hc, -, ho, hm⟩ := h
    have hbelow := ih1 ho
    have hmore := ih2 hm
    have hne : a ≠ arg := by
      rintro rfl
      rw [ha] at hc
      cases hc
    rw [calling, plain?, preorder, List.flatMap_append, List.flatMap_cons, List.count_append,
      List.count_append, List.count_cons_of_ne hne, List.count_append,
      List.count_cons_of_ne (by simp)]
    simp only
    omega

end

/-- the event of a call, which is run on values of the trees below it -/
def Noting (call : Command × Forest) (e : Event) : Prop :=
  e.command? = some call.1.name ∧ call.2.ValuedBy e.values

/-- the events of a walk are its first calls, and those of one that nothing stops are all of them -/
theorem Walks.calls {limit depth : Nat} {f : Forest} {result : Except Reply (List Value)}
    {noted : Journal} (h : f.Walks limit depth result noted) :
    ∃ reached, reached <+: f.calling ∧ (∀ values, result = .ok values → reached = f.calling) ∧
      List.Forall₂ Noting reached noted.events := by
  induction h with
  | nil depth => exact ⟨[], List.prefix_refl _, fun _ _ => rfl, .nil⟩
  | @leaf depth more result noted hm arg ih =>
    obtain ⟨reached, hpre, hall, hnoted⟩ := ih
    refine ⟨reached, hpre, ?_, hnoted⟩
    intro values hr
    cases result with
    | error reply => cases hr
    | ok rest => exact hall rest rfl
  | tooDeep hd arg c operands more =>
    refine ⟨[], List.nil_prefix, ?_, .nil⟩
    intro values hr
    cases hr
  | inside hd ho arg c more ih =>
    obtain ⟨reached, hpre, -, hnoted⟩ := ih
    refine ⟨reached, hpre.trans (List.prefix_append _ _), ?_, hnoted⟩
    intro values hr
    cases hr
  | @stops depth c operands values noted hd ho hs arg more ih =>
    obtain ⟨reached, -, hall, hnoted⟩ := ih
    rw [hall values rfl] at hnoted
    have hown : Noting (c, operands) (.expanding c.name depth values) :=
      ⟨rfl, (ho.completes rfl).valuedBy⟩
    refine ⟨operands.calling ++ [(c, operands)], ?_, ?_, List.rel_append hnoted (.cons hown .nil)⟩
    · rw [calling, List.prefix_append_right_inj, List.cons_prefix_cons]
      exact ⟨rfl, List.nil_prefix⟩
    · intro _ hr
      cases hr
  | @goesOn depth c operands more values result noted later hd ho hs hm arg ih1 ih2 =>
    obtain ⟨below, -, hbelow, hfirst⟩ := ih1
    obtain ⟨reached, hpre, hall, hnoted⟩ := ih2
    rw [hbelow values rfl] at hfirst
    have hown : Noting (c, operands) (.expanding c.name depth values) :=
      ⟨rfl, (ho.completes rfl).valuedBy⟩
    refine ⟨operands.calling ++ (c, operands) :: reached, ?_, ?_, ?_⟩
    · rw [calling, List.prefix_append_right_inj, List.cons_prefix_cons]
      exact ⟨rfl, hpre⟩
    · intro _ hr
      cases result with
      | error reply => cases hr
      | ok rest => rw [calling, hall rest rfl]
    · simp only [Journal.append_events, Journal.ofLog, List.append_nil, List.append_assoc]
      exact List.rel_append hfirst (.cons hown hnoted)

/-- only a reply that stops ends a walk before its end -/
theorem Walks.stops_of_error {limit depth : Nat} {f : Forest} {result : Except Reply (List Value)}
    {noted : Journal} (h : f.Walks limit depth result noted) {reply : Reply}
    (hr : result = .error reply) : reply.stops := by
  induction h with
  | nil depth => cases hr
  | @leaf depth more result noted hm arg ih =>
    cases result with
    | error other => exact ih (by simpa [Except.map] using hr)
    | ok values => cases hr
  | tooDeep =>
    cases hr
    rfl
  | inside hd ho arg c more ih => exact ih hr
  | stops hd ho hs arg more ih =>
    cases hr
    exact hs
  | @goesOn depth c operands more values result noted later hd ho hs hm arg ih1 ih2 =>
    cases result with
    | error other => exact ih2 (by simpa [Except.map] using hr)
    | ok rest => cases hr

end Forest

/-! ## lines -/

namespace Interpreter

section
variable {i : Interpreter} {word : String} {c : Command} {tokens : List String} {f : Forest}

/-- the events of a line are its first calls, the last of which is its own command -/
theorem Runs.calls {l : LineRun} (h : i.Runs (word :: tokens) l)
    (hc : i.registry.lookup? word = some c)
    (hf : i.registry.Parses (tokens.map Argument.ofWord) f) :
    ∃ reached, reached <+: f.calling ++ [(c, f)] ∧
      (¬l.reply.stops → reached = f.calling ++ [(c, f)]) ∧
      List.Forall₂ Forest.Noting reached l.journal.events := by
  cases h with
  | unknown hnone tokens =>
    rw [hc] at hnone
    cases hnone
  | @stopped word c' tokens f' reply noted hc' hf' hw =>
    obtain rfl : f' = f := hf'.eq_forest.trans hf.eq_forest.symm
    obtain ⟨reached, hpre, -, hnoted⟩ := hw.calls
    refine ⟨reached, hpre.trans (List.prefix_append _ _), fun hs => ?_, hnoted⟩
    exact absurd (hw.stops_of_error rfl) hs
  | @dispatched word c' tokens f' values noted hc' hf' hw =>
    obtain rfl : f' = f := hf'.eq_forest.trans hf.eq_forest.symm
    obtain ⟨reached, -, hall, hnoted⟩ := hw.calls
    rw [hall values rfl] at hnoted
    have hname : CommandName.ofWord? word = some c.name := by
      rw [(Registry.find?_of_lookup? hc).1, CommandName.ofWord?_word]
    have hown : Forest.Noting (c, f') (.dispatching word values) :=
      ⟨hname, (hw.completes rfl).valuedBy⟩
    exact ⟨f'.calling ++ [(c, f')], List.prefix_refl _, fun _ => rfl,
      List.rel_append hnoted (.cons hown .nil)⟩

end

/-- what a log command makes of texts between quotes -/
theorem runWords_quotes {n : CommandName} {s : Severity} (hn : n.severity? = some s)
    (config : Config) (texts : List String) :
    (Interpreter.mk .builtin config).runWords (n.word :: texts.map quote) =
      ⟨n.handler (texts.map .text), .ofEvent (.dispatching n.word (texts.map .text))⟩ := by
  have hplain : ∀ t ∈ texts.map quote, Registry.builtin.lookup? t = none := by
    intro t ht
    obtain ⟨u, -, rfl⟩ := List.mem_map.mp ht
    exact Registry.builtin.lookup?_quote u
  have hvalues : plainValues (texts.map quote) = texts.map .text := by
    rw [plainValues, List.map_map]
    refine List.map_congr_left fun t _ => ?_
    rw [Function.comp_apply, Argument.ofWord_quote, Argument.value_quoted]
  have hvariadic : n.builtin.arity = .variadic := by cases n <;> first | rfl | cases hn
  rw [runWords_plain (Registry.builtin.lookup?_word n) hplain, hvalues,
    Command.run_variadic hvariadic]
  rfl

/-- a program of one line, as a text or as a list -/
theorem lines_run_single {i : Interpreter} {line : String} (h : areEffective (Text.words line))
    (hfeed : '\n' ∉ line.toList) :
    ∀ p ∈ [Program.source line, Program.lines [line]],
      (i.run p).lines = [(1, i.runWords (Text.words line))] := by
  have hraw : ∀ p ∈ [Program.source line, Program.lines [line]], p.rawLines = [line] := by
    simp [Program.rawLines, Text.lines_eq_singleton hfeed]
  intro p hp
  have hline : i.runLine (Text.trim line) = i.runWords (Text.words line) := by
    rw [runLine, Text.words_trim]
  rw [run, Program.effective, hraw p hp, effectiveFrom_cons, isEffective_trim, if_pos h,
    effectiveFrom_nil, List.append_nil, runLines, runLines, hline]
  simp only [ite_self]

/-- words with single spaces between them are run as they are -/
theorem lines_run_intercalate {i : Interpreter} {tokens : List String}
    (htokens : ∀ t ∈ tokens, Text.Solid t ∧ t ≠ "") (h : areEffective tokens) :
    let line := " ".intercalate tokens
    ∀ p ∈ [Program.source line, Program.lines [line]], (i.run p).lines = [(1, i.runWords tokens)] := by
  intro line p hp
  have hwords : Text.words line = tokens := Text.words_intercalate htokens
  have hfeed : '\n' ∉ line.toList :=
    (Text.Spaced.intercalate fun t ht => (htokens t ht).1.spaced).lineFeed_not_mem
  have hlines := lines_run_single (i := i) (hwords.symm ▸ h) hfeed p hp
  rwa [hwords] at hlines

/-- a line of a log command and texts between quotes logs these texts and calls nothing else -/
theorem run_quotes {n : CommandName} {s : Severity} (hn : n.severity? = some s) (config : Config)
    {texts : List String} (h : ∀ t ∈ texts, Text.Solid t) :
    let i : Interpreter := ⟨.builtin, config⟩
    let line := " ".intercalate (n.word :: texts.map quote)
    ∀ p ∈ [Program.source line, Program.lines [line]],
      (i.run p).events = .dispatching n.word (texts.map .text) ::
        (if s.halts then [.halted 1] else []) ∧
      i.evaluate p = [⟨s, " ".intercalate texts⟩] := by
  intro i line p hp
  have htokens : ∀ t ∈ n.word :: texts.map quote, Text.Solid t ∧ t ≠ "" := by
    refine List.forall_mem_cons.mpr ⟨⟨n.solid_word, by cases n <;> decide⟩, ?_⟩
    intro token htoken
    obtain ⟨t, ht, rfl⟩ := List.mem_map.mp htoken
    exact ⟨(h t ht).quote, quote_ne_empty t⟩
  have heffective : areEffective (n.word :: texts.map quote) := by
    rw [areEffective, n.isComment_word]
    rfl
  have hlines := lines_run_intercalate (i := i) htokens heffective p hp
  rw [runWords_quotes hn] at hlines
  have hmessage : joined (texts.map .text) = " ".intercalate texts := by
    rw [joined, List.map_map]
    exact congrArg _ (List.map_id texts)
  have hentry := CommandName.entry?_handler hn (texts.map .text)
  have hstops := CommandName.stops_handler hn (texts.map .text)
  constructor
  · rw [Run.events, hlines, List.flatMap_singleton]
    simp only [hstops]
    rfl
  · rw [evaluate, Run.log, hlines, List.flatMap_singleton]
    simp only [LineRun.entries, Outcome.entries, hentry, hmessage]
    rfl

/-- **Double quotes are a complete escape.**  Let a line be a log command and texts without white
space, each between double quotes.  The built-in commands log one entry, which is these texts with
single spaces between, and nothing else is called, whatever the settings and whatever the texts are.
And wherever a text stands between quotes on a line, it is given to just one call, in which its value
is the text; the line runs its calls in their order and all of them unless it is stopped. -/
theorem quotes_escape :
    (∀ (n : CommandName) (s : Severity) (config : Config) (texts : List String),
      n.severity? = some s → (∀ t ∈ texts, Text.Solid t) →
      let i : Interpreter := ⟨.builtin, config⟩
      let line := " ".intercalate (n.word :: texts.map quote)
      ∀ p ∈ [Program.source line, Program.lines [line]],
        (i.run p).events = .dispatching n.word (texts.map .text) ::
          (if s.halts then [.halted 1] else []) ∧
        i.evaluate p = [⟨s, " ".intercalate texts⟩]) ∧
    ∀ (i : Interpreter) (line word : String) (tokens : List String) (c : Command) (f : Forest),
      Text.words line = word :: tokens → i.registry.lookup? word = some c →
      i.registry.Parses (tokens.map Argument.ofWord) f →
      let calls := f.calling ++ [(c, f)]
      let ran := i.runLine line
      (∀ t, (calls.flatMap fun call => call.2.plain?).count (some (.quoted t)) =
        tokens.count (quote t)) ∧
      ∃ reached, reached <+: calls ∧ (¬ran.reply.stops → reached = calls) ∧
        List.Forall₂ (fun (call : Command × Forest) (e : Event) =>
            e.command? = some call.1.name ∧ e.values.length = call.2.plain?.length ∧
            ∀ (k : Nat) (t : String),
              call.2.plain?[k]? = some (some (.quoted t)) → e.values[k]? = some (.text t))
          reached ran.journal.events := by
  refine ⟨fun n s config texts hn h => run_quotes hn config h, ?_⟩
  intro i line word tokens c f hwords hc hf calls ran
  constructor
  · intro t
    have hcount := hf.2.count_plain (i.registry.commandOf?_quoted t)
    rw [List.flatMap_append, List.flatMap_singleton, List.count_append, hcount, hf.1,
      Argument.count_quoted]
  · have hruns : i.Runs (word :: tokens) ran := by
      rw [← hwords]
      exact i.runs_runLine line
    obtain ⟨reached, hpre, hall, hnoted⟩ := hruns.calls hc hf
    refine ⟨reached, hpre, hall, hnoted.imp ?_⟩
    rintro call e ⟨hname, hvalued⟩
    exact ⟨hname, hvalued.length_eq.symm, fun k t hk => hvalued.getElem?_of_plain hk⟩

/-- a stop of texts that would be nothing, a quote, a command, a variable, a number and a truth value,
where no command may stand inside another; and a sum of a quoted text and a number inside a print -/
theorem quotes_escape_hostile :
    let strict : Interpreter := ⟨.builtin, ⟨0, "no output"⟩⟩
    let texts := ["", "\"", "add", "_LANG", "1", "true"]
    let operands := Forest.leaf (.quoted "add") (.leaf (.word "1") .nil)
    let f := Forest.call (.word "add") CommandName.add.builtin operands (.leaf (.quoted "\"") .nil)
    let ran := Interpreter.default.runLine "print add \"add\" 1 \"\"\""
    (∀ t ∈ texts, Text.Solid t) ∧
    " ".intercalate ("stop" :: texts.map quote) =
      "stop \"\" \"\"\" \"add\" \"_LANG\" \"1\" \"true\"" ∧
    strict.evaluate (.source "stop \"\" \"\"\" \"add\" \"_LANG\" \"1\" \"true\"") =
      [⟨.halt, " \" add _LANG 1 true"⟩] ∧
    Registry.builtin.Parses (["add", "\"add\"", "1", "\"\"\""].map Argument.ofWord) f ∧
    List.Forall₂ (fun (call : Command × Forest) (e : Event) => ∀ (k : Nat) (t : String),
        call.2.plain?[k]? = some (some (.quoted t)) → e.values[k]? = some (.text t))
      [(CommandName.add.builtin, operands), (CommandName.print.builtin, f)] ran.journal.events ∧
    ran.entries = [⟨.info, "add1 \""⟩] := by
  intro strict texts operands f ran
  have hsolid : ∀ t ∈ texts, Text.Solid t := by decide
  have hline : " ".intercalate ("stop" :: texts.map quote) =
      "stop \"\" \"\"\" \"add\" \"_LANG\" \"1\" \"true\"" := by
    decide +kernel
  have hoperands : operands.Shaped Registry.builtin [.quoted "\""] := ⟨by decide, by decide, trivial⟩
  have hf : Registry.builtin.Parses (["add", "\"add\"", "1", "\"\"\""].map Argument.ofWord) f :=
    ⟨by decide +kernel, Registry.builtin.commandOf?_word .add, Or.inl rfl, hoperands,
      by decide, trivial⟩
  obtain ⟨hquoted, hgiven⟩ := quotes_escape
  obtain ⟨-, hlog⟩ := hquoted .stop .halt strict.config texts rfl hsolid _ List.mem_cons_self
  obtain ⟨-, reached, -, hall, hnoted⟩ := hgiven .default "print add \"add\" 1 \"\"\"" "print" _ _ f
    (by decide +kernel) (Registry.builtin.lookup?_word .print) hf
  rw [hall (by decide +kernel)] at hnoted
  refine ⟨hsolid, hline, ?_, hf, hnoted.imp fun call e h => h.2.2, by decide +kernel⟩
  rw [← hline]
  exact hlog.trans (by decide +kernel)

end Interpreter

end LineScript
