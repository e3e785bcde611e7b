import LineScript.Proofs.Retelling
import LineScript.Proofs.Spacing
import LineScript.Shell.Report

/-!
# Framing of the output

The log is printed one entry to a line, and an entry of a command is its values with spaces between.
Neither can be upset by what a script says: under built-in handlers all values are solid, so that no
message has a line feed in it and no value a space.

* `Interpreter.solid_of_mem_events`   every value that a command is called on is solid;
* `Interpreter.spaced_of_mem_log`     every message that is logged is spaced;
* `Entry.decode?_encode`              an entry is read back from the wire;
* `Text.lines_unlines`                lines are read back from a text;
* `Text.splitOn_joined`               solid values are read back from the message that joins them.

`Interpreter.log_keeps_framing` puts these together.
-/

namespace LineScript

/-! ## values -/

section
variable {r : Registry} {limit depth : Nat} {f : Forest} {rest : List Argument}

theorem Forest.Completes.solid_values {values : List Value} {noted : Journal}
    (h : f.Completes limit depth values noted) (hr : r.RunsBuiltins) (hf : f.Shaped r rest)
    (hargs : ∀ arg ∈ f.preorder, arg.value.Solid) : ∀ v ∈ values, v.Solid :=
  h.forall_values hf (fun hc hv _ => (hr hc).solid_run hv) hargs

theorem Forest.Walks.solid_of_mem_events {result : Except Reply (List Value)} {noted : Journal}
    (h : f.Walks limit depth result noted) (hr : r.RunsBuiltins) (hf : f.Shaped r rest)
    (hargs : ∀ arg ∈ f.preorder, arg.value.Solid) {e : Event} (he : e ∈ noted.events) :
    ∀ v ∈ e.values, v.Solid := by
  cases h.noted_of_mem hf he with
  | call hc hd hl hfo hm ha hw => exact hw.solid_values hr hfo fun arg harg => hargs arg (ha harg)

end

/-- the arguments of a line stand for solid values -/
theorem Registry.Parses.solid_value {r : Registry} {word : String} {tokens : List String}
    {f : Forest} (hf : r.Parses (tokens.map Argument.ofWord) f)
    (hwords : ∀ w ∈ word :: tokens, Text.Solid w) : ∀ arg ∈ f.preorder, arg.value.Solid := by
  intro arg harg
  rw [hf.1] at harg
  obtain ⟨w, hw, rfl⟩ := List.mem_map.mp harg
  exact Argument.solid_value (hwords w (List.mem_cons_of_mem _ hw))

namespace Interpreter

section
variable {i : Interpreter}

theorem Runs.solid_of_mem_events {words : List String} {l : LineRun} (h : i.Runs words l)
    (hr : i.registry.RunsBuiltins) (hwords : ∀ w ∈ words, Text.Solid w) {e : Event}
    (he : e ∈ l.journal.events) : ∀ v ∈ e.values, v.Solid := by
  cases h with
  | blank => cases he
  | unknown hc tokens => cases he
  | stopped hc hf hw => exact hw.solid_of_mem_events hr hf.2 (hf.solid_value hwords) he
  | dispatched hc hf hw =>
    have hargs := hf.solid_value hwords
    rcases List.mem_append.mp he with he | he
    · exact hw.solid_of_mem_events hr hf.2 hargs he
    · rw [List.mem_singleton.mp he]
      exact (hw.completes rfl).solid_values hr hf.2 hargs

theorem solid_of_mem_events (hr : i.registry.RunsBuiltins) {p : Program} {e : Event}
    (he : e ∈ (i.run p).events) : ∀ v ∈ e.values, v.Solid := by
  rcases mem_events_cases he with ⟨n, rfl⟩ | ⟨numbered, -, he⟩
  · intro v hv
    cases hv
  · have hline := i.runs_runLine numbered.2
    exact hline.solid_of_mem_events hr (fun w => Text.solid_of_mem_words) he

end

end Interpreter

/-! ## messages -/

theorem CommandName.entry?_handler {n : CommandName} {s : Severity} (h : n.severity? = some s)
    (values : List Value) : (n.handler values).outcome.entry? = some ⟨s, joined values⟩ := by
  cases n with
  | print | warn | error | stop =>
    cases h
    rfl
  | add | sub | mul | div | pow | equals | not => cases h

/-- the entry of a call is its values, with spaces between -/
theorem Command.RunsBuiltin.message_of_mem_logged {c : Command} (hc : c.RunsBuiltin)
    {values : List Value} {entry : Entry} (h : entry ∈ (c.run values).logged) :
    entry.message = joined values := by
  obtain ⟨n, hn⟩ := hc
  rcases c.run_cases values with ⟨-, hrun⟩ | ⟨count, -, -, hrun⟩
  · rw [hrun, hn, n.logged_handler, Option.mem_toList] at h
    obtain ⟨s, -, rfl⟩ := Option.map_eq_some_iff.mp h
    rfl
  · rw [hrun] at h
    cases h

namespace Interpreter

section
variable {i : Interpreter}

theorem Fails.spaced_message {p : Program} {f : Failure} (h : i.Fails p f)
    (hr : i.registry.RunsBuiltins) : Text.Spaced f.message := by
  apply Failure.spaced_message
  rintro word rfl
  cases h with
  | unknown hl hw =>
    apply Text.solid_of_mem_words
    rw [hw]
    exact List.mem_cons_self
  | call hc hrun =>
    rcases (hr hc).failed_cases hrun with h | ⟨count, h⟩ | ⟨needed, h⟩
    · cases h
    · cases h
    · cases h

theorem spaced_of_mem_log (hr : i.registry.RunsBuiltins) {p : Program} {entry : Entry}
    (he : entry ∈ (i.run p).log) : Text.Spaced entry.message := by
  rcases mem_log_iff.mp he with ⟨e, hmem, he⟩ | ⟨f, hf, rfl⟩
  · cases hc : i.registry.called? e with
    | none =>
      rw [Registry.retold_of_not_called? hc] at he
      cases he
    | some c =>
      rw [Registry.retold_of_called? hc] at he
      rw [(hr (Registry.find?_of_called? hc)).message_of_mem_logged he]
      exact spaced_joined (solid_of_mem_events hr hmem)
  · exact (fails_of_failure? hf).spaced_message hr

end

end Interpreter

/-! ## reading back -/

theorem Severity.toDigits_code (s : Severity) : readCode? (Nat.toDigits 10 s.code) = some s.code := by
  cases s <;> decide

theorem Entry.decode?_encode (e : Entry) : decode? e.encode = some e := by
  have hcomma : ',' ∉ Nat.toDigits 10 e.severity.code := by
    intro h
    exact absurd (Nat.isDigit_of_mem_toDigits (by decide) (Nat.le_refl _) h) (by decide)
  unfold decode?
  rw [toList_encode, splitComma?_append hcomma]
  simp only [Option.bind_eq_bind, Option.bind_some, Severity.toDigits_code, Severity.ofCode?_code,
    String.ofList_toList, Option.pure_def]

namespace Text

theorem lines_unlines {ls : List String} (h : ∀ s ∈ ls, '\n' ∉ s.toList) :
    lines (Shell.unlines ls) = ls ++ [""] := by
  induction ls with
  | nil => decide
  | cons s ls ih =>
    obtain ⟨hs, hls⟩ := List.forall_mem_cons.mp h
    have hcons : Shell.unlines (s :: ls) = s ++ "\n" ++ Shell.unlines ls := String.join_cons
    rw [hcons, lines_append_lineFeed hs, ih hls, List.cons_append]

theorem splitOn_joined {values : List Value} (h : ∀ v ∈ values, v.Solid) (hne : values ≠ []) :
    ((joined values).toList.splitOn ' ').map String.ofList = values.map Value.display := by
  have hspace : ∀ cs ∈ (values.map Value.display).map String.toList, ' ' ∉ cs := by
    intro cs hcs
    rw [List.map_map] at hcs
    obtain ⟨v, hv, rfl⟩ := List.mem_map.mp hcs
    exact (h v hv).space_not_mem
  have hsome : (values.map Value.display).map String.toList ≠ [] := by
    simpa using hne
  rw [joined, String.toList_intercalate]
  show (List.splitOn ' ' ([' '].intercalate _)).map _ = _
  rw [List.splitOn_intercalate ' ' hspace hsome, List.map_map]
  simp

end Text

/-! ## the output -/

/-- no line feed gets into the log on the wire, unless the word for no output has one -/
theorem Interpreter.lineFeed_not_mem_encode {i : Interpreter} (hr : i.registry.RunsBuiltins)
    (hword : '\n' ∉ i.config.noOutput.toList) {p : Program} {entry : Entry}
    (he : entry ∈ i.evaluate p) : '\n' ∉ entry.encode.toList := by
  have hmessage : '\n' ∉ entry.message.toList := by
    unfold evaluate withSentinel at he
    split at he
    · rw [List.mem_singleton.mp he]
      exact hword
    · exact (spaced_of_mem_log hr he).lineFeed_not_mem
  rw [Entry.toList_encode, List.mem_append, List.mem_cons]
  rintro (h | h | h)
  · exact absurd (Nat.isDigit_of_mem_toDigits (by decide) (Nat.le_refl _) h) (by decide)
  · exact absurd h (by decide)
  · exact hmessage h

theorem Shell.Report.stdout_of_raw {s : Shell.Settings} (h : s.raw) (p : Program) :
    (Shell.Report.ofProgram s p).stdout =
      Shell.unlines ((s.interpreter.evaluate p).map Entry.encode) := by
  unfold ofProgram ofLog
  rw [h]
  rfl

/-- **Messages cannot break the framing of the output.**  Under built-in handlers, whatever the
arities, every value that a command is called on is free of white space, and every message that is
logged has no white space but the space.  So if the word for no output has no line feed, the lines that
are printed for the wire are the log, one entry to a line; and the entry of a log command is in the log
and gives back, cut at its spaces, the values that the command was called on. -/
theorem Interpreter.log_keeps_framing (i : Interpreter) (hr : i.registry.RunsBuiltins) (p : Program) :
    (∀ e ∈ (i.run p).events, ∀ v ∈ e.values, ∀ c ∈ v.display.toList, Text.isBlank c = false) ∧
    (∀ entry ∈ (i.run p).log, ∀ c ∈ entry.message.toList, Text.isBlank c → c = ' ') ∧
    (∀ s : Shell.Settings, s.interpreter = i → s.raw → '\n' ∉ i.config.noOutput.toList →
      let lines := Text.lines (Shell.Report.ofProgram s p).stdout
      lines = (i.evaluate p).map Entry.encode ++ [""] ∧
      lines.dropLast.map Entry.decode? = (i.evaluate p).map some) ∧
    ∀ e ∈ (i.run p).events, e.values ≠ [] → ∀ (c : Command) (n : CommandName) (s : Severity),
      i.registry.called? e = some c → c.handler = n.handler → n.severity? = some s →
      (∀ count, c.arity = .fixed count → count ≤ e.values.length) →
      ∃ entry, (c.run e.values).outcome.entry? = some entry ∧ entry ∈ (i.run p).log ∧
        entry.severity = s ∧
        (entry.message.toList.splitOn ' ').map String.ofList = e.values.map Value.display := by
  refine ⟨fun e he => solid_of_mem_events hr he, fun entry he => spaced_of_mem_log hr he, ?_, ?_⟩
  · intro s hs hraw hword lines
    have hlines : lines = (i.evaluate p).map Entry.encode ++ [""] := by
      show Text.lines _ = _
      rw [Shell.Report.stdout_of_raw hraw, hs]
      apply Text.lines_unlines
      intro text htext
      obtain ⟨entry, he, rfl⟩ := List.mem_map.mp htext
      exact lineFeed_not_mem_encode hr hword he
    refine ⟨hlines, ?_⟩
    rw [hlines, List.dropLast_concat, List.map_map]
    exact List.map_congr_left fun entry _ => entry.decode?_encode
  · intro e he hne c n s hc hn hs hroom
    have hrun : c.run e.values = c.handler e.values := by
      rcases c.run_cases e.values with ⟨-, hrun⟩ | ⟨count, ha, hv, -⟩
      · exact hrun
      · exact absurd (hroom count ha) (Nat.not_le.mpr hv)
    have hlogged : (⟨s, joined e.values⟩ : Entry) ∈ i.registry.retold e := by
      rw [Registry.retold_of_called? hc, hrun, hn, n.logged_handler, hs]
      exact List.mem_singleton_self _
    refine ⟨⟨s, joined e.values⟩, ?_, ?_, rfl, ?_⟩
    · rw [hrun, hn]
      exact CommandName.entry?_handler hs e.values
    · exact mem_log_iff.mpr (Or.inl ⟨e, he, hlogged⟩)
    · exact Text.splitOn_joined (solid_of_mem_events hr he) hne

/-- here `stop` warns of two values or more; white space of other kinds, a line feed too, is gone by the
time that the entries are printed -/
theorem Interpreter.log_keeps_framing_blanks :
    let warning : Command := ⟨.stop, .fixed 2, CommandName.warn.handler⟩
    let i : Interpreter := ⟨Registry.builtin.register warning, .default⟩
    let p := Program.lines ["print add\u2028\"a\"\x0bb _LANG", "stop\u00a0x\ny z"]
    let lines := Text.lines (Shell.Report.ofProgram ⟨i, true, none, none⟩ p).stdout
    i.registry.RunsBuiltins ∧
    lines = ["0,ab rust", "1,x y z", ""] ∧
    lines.dropLast.map Entry.decode? = (i.evaluate p).map some ∧
    ∃ entry ∈ (i.run p).log, entry.severity = .warning ∧
      (entry.message.toList.splitOn ' ').map String.ofList = ["x", "y", "z"] := by
  intro warning i p lines
  have hwarning : warning.OfBuiltin := ⟨.warn, rfl, Nat.zero_le 2⟩
  have hof : i.registry.OfBuiltins := Registry.builtin_ofBuiltins.register hwarning
  have hr : i.registry.RunsBuiltins := Registry.OfBuiltins.runsBuiltins hof
  obtain ⟨-, -, hframe, hsplit⟩ := i.log_keeps_framing hr p
  obtain ⟨hlines, hdecode⟩ := hframe ⟨i, true, none, none⟩ rfl rfl (by decide)
  have hlog : (i.evaluate p).map Entry.encode = ["0,ab rust", "1,x y z"] := by decide +kernel
  rw [hlog] at hlines
  refine ⟨hr, hlines, hdecode, ?_⟩
  have hcall : Event.dispatching "stop" [.text "x", .text "y", .text "z"] ∈ (i.run p).events := by
    decide +kernel
  have hroom : ∀ count, warning.arity = .fixed count → count ≤ 3 := by
    intro count h
    cases h
    decide
  obtain ⟨entry, -, hmem, hs, hpieces⟩ :=
    hsplit _ hcall (by decide) warning .warn .warning (i.registry.lookup?_word .stop) rfl rfl hroom
  exact ⟨entry, hmem, hs, hpieces⟩

end LineScript
