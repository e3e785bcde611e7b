import LineScript.Proofs.Nesting
import LineScript.Proofs.Room

/-!
# Raising the nesting limit

Two limits are compared.  A walk under the lower one does step by step what the walk under the higher
one does, until a call stands too deep for it.  There it stops, and what it has noted by then is the
front of what the other notes.  It asks for no more room than the other.

* `Forest.Walks.raise`      a walk under two limits, with `Forest.Fits.lower` for the room, and
                            `Interpreter.runLineWithin_raise`: a line;
* `Forest.reach_ne_tooDeep` no call stands too deep where there are no more calls than that;
* `CutOff`                  a log that ends where the limit was passed.

`Interpreter.evaluateWithin_raise` compares the logs of a program under two limits.
-/

namespace LineScript

/-! ## walks -/

namespace Forest

section
variable {limit higher depth : Nat} {f operands : Forest} {result : Except Reply (List Value)}
  {noted : Journal}

/-- whatever a call does after its operands, it only adds to what they have noted -/
theorem Walks.call_extends (hd : depth ≤ limit)
    (ho : operands.Walks limit (depth + 1) result noted) (arg : Argument) (c : Command)
    (more : Forest) :
    ∃ result' later, (call arg c operands more).Walks limit depth result' (noted ++ later) := by
  cases result with
  | error reply =>
    refine ⟨.error reply, .empty, ?_⟩
    rw [Journal.append_empty]
    exact .inside hd ho arg c more
  | ok values =>
    by_cases hs : (c.run values).stops
    · exact ⟨_, _, .stops hd ho hs arg more⟩
    · have hgo := Walks.goesOn hd ho hs (walks_walk limit depth more) arg
      rw [Journal.append_assoc, Journal.append_assoc] at hgo
      exact ⟨_, _, hgo⟩

theorem Walks.reach_eq {values : List Value} (h : f.Walks limit depth (.ok values) noted) :
    f.reach limit depth = .ok values := by
  rw [reach_eq_ok_iff, h.walk_eq]

/-- a higher limit gives the same walk, or one that goes on where this one was too deep -/
theorem Walks.raise (h : f.Walks limit depth result noted) (hl : limit ≤ higher) :
    f.Walks higher depth result noted ∨
    f.reach limit depth = .error .tooDeep ∧
      ∃ result' later, f.Walks higher depth result' (noted ++ later) := by
  induction h with
  | nil depth => exact Or.inl (.nil depth)
  | leaf hm arg ih =>
    rcases ih with hsame | ⟨hdeep, result', later, hw⟩
    · exact Or.inl (.leaf hsame arg)
    · rw [reach, hdeep]
      exact Or.inr ⟨rfl, _, later, .leaf hw arg⟩
  | tooDeep hd arg c operands more =>
    exact Or.inr ⟨reach_call_of_lt hd .., _, _, walks_walk higher _ (call arg c operands more)⟩
  | inside hd ho arg c more ih =>
    have hd' := Nat.le_trans hd hl
    rcases ih with hsame | ⟨hdeep, result', later, hw⟩
    · exact Or.inl (.inside hd' hsame arg c more)
    · obtain ⟨result'', later', hw'⟩ := hw.call_extends hd' arg c more
      rw [Journal.append_assoc] at hw'
      exact Or.inr ⟨reach_call_of_error (Nat.not_lt.mpr hd) hdeep .., result'', later ++ later', hw'⟩
  | stops hd ho hs arg more ih =>
    rcases ih with hsame | ⟨hdeep, -⟩
    · exact Or.inl (.stops (Nat.le_trans hd hl) hsame hs arg more)
    · cases hdeep.symm.trans ho.reach_eq
  | goesOn hd ho hs hm arg ih1 ih2 =>
    have hd' := Nat.le_trans hd hl
    rcases ih1 with hsame | ⟨hdeep, -⟩
    · rcases ih2 with hsame2 | ⟨hdeep2, result', later, hw⟩
      · exact Or.inl (.goesOn hd' hsame hs hsame2 arg)
      · have hgo := Walks.goesOn hd' hsame hs hw arg
        rw [← Journal.append_assoc] at hgo
        rw [reach_call_of_goes_on (Nat.not_lt.mpr hd) ho.reach_eq hs, hdeep2]
        exact Or.inr ⟨rfl, _, later, hgo⟩
    · cases hdeep.symm.trans ho.reach_eq

/-- where no call stands too deep, a higher limit changes nothing -/
theorem walk_raise (hl : limit ≤ higher) (hdeep : f.reach limit depth ≠ .error .tooDeep) :
    f.walk higher depth = f.walk limit depth := by
  rcases (walks_walk limit depth f).raise hl with hsame | ⟨htoo, -⟩
  · exact hsame.walk_eq
  · exact absurd htoo hdeep

/-- a call stands below as many others as there are at most, so with few calls none is too deep -/
theorem reach_ne_tooDeep (hcalls : depth + f.calls ≤ limit + 1) :
    f.reach limit depth ≠ .error .tooDeep := by
  intro hdeep
  induction f generalizing depth with
  | nil => cases hdeep
  | leaf arg more ih =>
    rw [reach] at hdeep
    cases hm : more.reach limit depth with
    | ok values =>
      rw [hm] at hdeep
      cases hdeep
    | error stop =>
      rw [hm] at hdeep
      cases hdeep
      exact ih hcalls hm
  | call arg c operands more ih1 ih2 =>
    rw [calls] at hcalls
    have hd : ¬limit < depth := by omega
    cases ho : operands.reach limit (depth + 1) with
    | error stop =>
      rw [reach_call_of_error hd ho] at hdeep
      cases hdeep
      exact ih1 (by omega) ho
    | ok values =>
      by_cases hs : (c.run values).stops
      · rw [reach_call_of_stops hd ho hs] at hdeep
        cases hdeep
      · rw [reach_call_of_goes_on hd ho hs] at hdeep
        cases hm : more.reach limit depth with
        | ok others =>
          rw [hm] at hdeep
          cases hdeep
        | error stop =>
          rw [hm] at hdeep
          cases hdeep
          exact ih2 (by omega) hm

end

/-! ### room under two limits -/

section
variable {room limit higher depth : Nat} {f : Forest}

/-- a walk asks for no more room under a lower limit -/
theorem Fits.lower (h : f.Fits room higher depth) (hl : limit ≤ higher) :
    f.Fits room limit depth := by
  induction f generalizing depth with
  | nil => trivial
  | leaf arg more ih => exact ih h
  | call arg c operands more ih1 ih2 =>
    intro hd
    obtain ⟨hroom, ho, hm⟩ := h (Nat.le_trans hd hl)
    refine ⟨hroom, ih1 ho, fun values hr hs => ih2 (hm values ?_ hs)⟩
    rw [reach_eq_ok_iff, walk_raise hl (by rw [hr]; nofun), ← reach_eq_ok_iff]
    exact hr

/-- and for no less where no call stands too deep -/
theorem Fits.raise (h : f.Fits room limit depth) (hl : limit ≤ higher)
    (hdeep : f.reach limit depth ≠ .error .tooDeep) : f.Fits room higher depth := by
  induction f generalizing depth with
  | nil => trivial
  | leaf arg more ih =>
    refine ih h fun hm => hdeep ?_
    rw [reach, hm]
    rfl
  | call arg c operands more ih1 ih2 =>
    intro _
    have hd : ¬limit < depth := fun hd => hdeep (reach_call_of_lt hd ..)
    have hdeep1 : operands.reach limit (depth + 1) ≠ .error .tooDeep :=
      fun ho => hdeep (reach_call_of_error hd ho ..)
    obtain ⟨hroom, ho, hm⟩ := h (Nat.not_lt.mp hd)
    refine ⟨hroom, ih1 ho hdeep1, fun values hr hs => ?_⟩
    rw [reach_eq_ok_iff, walk_raise hl hdeep1, ← reach_eq_ok_iff] at hr
    refine ih2 (hm values hr hs) fun hmore => hdeep ?_
    rw [reach_call_of_goes_on hd hr hs, hmore]
    rfl

end

end Forest

/-! ## lines -/

namespace Interpreter

section
variable {i : Interpreter} {limit higher : Nat} {word : String} {c : Command}
  {tokens : List String} {f : Forest}

/-- what was noted after the operands of a line does not take back what was noted before -/
theorem exists_runs_of_walk {result : Except Reply (List Value)} {noted : Journal}
    (hc : i.registry.lookup? word = some c)
    (hf : i.registry.Parses (tokens.map Argument.ofWord) f)
    (hw : f.Walks i.config.maxDepth 1 result noted) :
    ∃ reply later, i.Runs (word :: tokens) ⟨reply, noted ++ later⟩ := by
  cases result with
  | error reply =>
    refine ⟨reply, .empty, ?_⟩
    rw [Journal.append_empty]
    exact .stopped hc hf hw
  | ok values => exact ⟨c.run values, _, .dispatched hc hf hw⟩

/-- a line is answered alike under two limits where no call stands too deep for the lower -/
theorem runWordsWithin_raise_of_ne (hc : i.registry.lookup? word = some c)
    (hf : i.registry.Parses (tokens.map Argument.ofWord) f) (hl : limit ≤ higher)
    (hdeep : f.reach limit 1 ≠ .error .tooDeep) (room : Nat) :
    (i.withMaxDepth limit).runWordsWithin room (word :: tokens) =
      (i.withMaxDepth higher).runWordsWithin room (word :: tokens) := by
  have hwalk := Forest.walk_raise hl hdeep
  have hruns : (i.withMaxDepth limit).runWords (word :: tokens) =
      (i.withMaxDepth higher).runWords (word :: tokens) := by
    rcases hw : f.walk limit 1 with ⟨result, noted⟩
    rw [hw] at hwalk
    cases result with
    | error reply =>
      rw [runWords_of_walk_error (i := i.withMaxDepth limit) hc hf hw,
        runWords_of_walk_error (i := i.withMaxDepth higher) hc hf hwalk]
    | ok values =>
      rw [runWords_of_walk_ok (i := i.withMaxDepth limit) hc hf hw,
        runWords_of_walk_ok (i := i.withMaxDepth higher) hc hf hwalk]
  have hfits : (i.withMaxDepth limit).WordsFit room (word :: tokens) ↔
      (i.withMaxDepth higher).WordsFit room (word :: tokens) := by
    rw [wordsFit_iff (i := i.withMaxDepth limit) hc hf,
      wordsFit_iff (i := i.withMaxDepth higher) hc hf]
    exact ⟨fun h => h.raise hl hdeep, fun h => h.lower hl⟩
  ext l
  rw [runWordsWithin_eq_some_iff, runWordsWithin_eq_some_iff, hruns, hfits]

/-- where a call stands too deep for the lower limit, the answer under it is that it was passed -/
theorem runWordsWithin_raise_of_tooDeep (hc : i.registry.lookup? word = some c)
    (hf : i.registry.Parses (tokens.map Argument.ofWord) f) (hl : limit ≤ higher)
    (hdeep : f.reach limit 1 = .error .tooDeep) {room : Nat} (hfits : f.Fits room limit 1) :
    ∃ journal, (i.withMaxDepth limit).runWordsWithin room (word :: tokens) =
        some ⟨.failed (.depthExceeded limit), journal⟩ ∧
      ∀ l, (i.withMaxDepth higher).runWordsWithin room (word :: tokens) = some l →
        ∃ later, l.journal = journal ++ later := by
  refine ⟨(f.walk limit 1).2, runWordsWithin_eq_some_iff.mpr ⟨?_, ?_, nofun⟩, fun l h => ?_⟩
  · have hw : f.walk limit 1 = (.error (.failed (.depthExceeded limit)), (f.walk limit 1).2) :=
      Prod.ext (Forest.walk_fst_of_tooDeep hdeep) rfl
    exact (runWords_of_walk_error (i := i.withMaxDepth limit) hc hf hw).symm
  · exact (wordsFit_iff (i := i.withMaxDepth limit) hc hf).mpr hfits
  · obtain ⟨rfl, -⟩ := runWordsWithin_eq_some_iff.mp h
    have hextends : ∃ result later, f.Walks higher 1 result ((f.walk limit 1).2 ++ later) := by
      rcases (Forest.walks_walk limit 1 f).raise hl with hsame | ⟨-, hlater⟩
      · exact ⟨_, .empty, by rwa [Journal.append_empty]⟩
      · exact hlater
    obtain ⟨result, later, hw⟩ := hextends
    obtain ⟨reply, after, hrun⟩ := exists_runs_of_walk (i := i.withMaxDepth higher) hc hf hw
    rw [runs_iff.mp hrun]
    exact ⟨later ++ after, Journal.append_assoc _ _ _⟩

end

section
variable {limit higher : Nat}

/-- a line is answered alike under two limits, or the lower one was passed and what was noted by then is
the front of what the other notes -/
theorem runLineWithin_raise (i : Interpreter) (hl : limit ≤ higher) (room : Nat) (line : String) :
    (i.withMaxDepth limit).runLineWithin room line =
      (i.withMaxDepth higher).runLineWithin room line ∨
    ∃ journal, (i.withMaxDepth limit).runLineWithin room line =
        some ⟨.failed (.depthExceeded limit), journal⟩ ∧
      ∀ l, (i.withMaxDepth higher).runLineWithin room line = some l →
        ∃ later, l.journal = journal ++ later := by
  unfold runLineWithin
  cases Text.words line with
  | nil => exact Or.inl rfl
  | cons word tokens =>
    cases hc : i.registry.lookup? word with
    | none =>
      left
      rw [runWordsWithin_of_unknown (i := i.withMaxDepth limit) hc,
        runWordsWithin_of_unknown (i := i.withMaxDepth higher) hc]
    | some c =>
      obtain ⟨f, hf⟩ := (i.registry.existsUnique_parses (tokens.map Argument.ofWord)).exists
      by_cases hdeep : f.reach limit 1 = .error .tooDeep
      · by_cases hfits : f.Fits room limit 1
        · exact Or.inr (runWordsWithin_raise_of_tooDeep hc hf hl hdeep hfits)
        · left
          ext l
          rw [runWordsWithin_eq_some_iff, runWordsWithin_eq_some_iff,
            wordsFit_iff (i := i.withMaxDepth limit) hc hf,
            wordsFit_iff (i := i.withMaxDepth higher) hc hf]
          exact ⟨fun h => absurd h.2.1 hfits, fun h => absurd (h.2.1.lower hl) hfits⟩
      · exact Or.inl (runWordsWithin_raise_of_ne hc hf hl hdeep room)

/-- the calls behind the first word of a line are as many as the words that name commands -/
theorem runLineWithin_raise_of_calls_le (i : Interpreter) (hl : limit ≤ higher) (room : Nat)
    {line : String} (hcalls : (Text.words line).tail.countP i.registry.names ≤ limit) :
    (i.withMaxDepth limit).runLineWithin room line =
      (i.withMaxDepth higher).runLineWithin room line := by
  unfold runLineWithin
  cases hw : Text.words line with
  | nil => rfl
  | cons word tokens =>
    rw [hw] at hcalls
    cases hc : i.registry.lookup? word with
    | none =>
      rw [runWordsWithin_of_unknown (i := i.withMaxDepth limit) hc,
        runWordsWithin_of_unknown (i := i.withMaxDepth higher) hc]
    | some c =>
      obtain ⟨f, hf⟩ := (i.registry.existsUnique_parses (tokens.map Argument.ofWord)).exists
      refine runWordsWithin_raise_of_ne hc hf hl (Forest.reach_ne_tooDeep ?_) room
      rw [hf.calls_eq, Nat.add_comm]
      exact Nat.succ_le_succ hcalls

end

/-! ## programs -/

/-- a log that is cut off by the message that the limit was passed, in front of which it agrees with
the whole log, if there is one -/
def CutOff (limit : Nat) (log : List Entry) (whole? : Option (List Entry)) : Prop :=
  ∃ front, (∀ whole, whole? = some whole → front <+: whole) ∧
    log = front ++ [⟨.error, "Maximum nesting depth of " ++ toString limit ++ " exceeded."⟩]

theorem CutOff.after {limit : Nat} {log : List Entry} {whole? : Option (List Entry)}
    (h : CutOff limit log whole?) (a : List Entry) :
    CutOff limit (a ++ log) (whole?.map (a ++ ·)) := by
  obtain ⟨front, hfront, hlog⟩ := h
  refine ⟨a ++ front, fun whole hwhole => ?_, ?_⟩
  · obtain ⟨rest, hrest, rfl⟩ := Option.map_eq_some_iff.mp hwhole
    exact (List.prefix_append_right_inj a).mpr (hfront rest hrest)
  · rw [hlog, List.append_assoc]

section
variable {i : Interpreter} {limit higher : Nat}

theorem runLinesWithin_raise (i : Interpreter) (hl : limit ≤ higher) (room : Nat)
    (lines : List (Nat × String)) :
    (i.withMaxDepth limit).runLinesWithin room lines =
      (i.withMaxDepth higher).runLinesWithin room lines ∨
    ∃ ls, (i.withMaxDepth limit).runLinesWithin room lines = some ls ∧
      CutOff limit (Run.mk ls).log
        (((i.withMaxDepth higher).runLinesWithin room lines).map fun ls => (Run.mk ls).log) := by
  induction lines with
  | nil => exact Or.inl rfl
  | cons numbered more ih =>
    obtain ⟨n, line⟩ := numbered
    rw [runLinesWithin, runLinesWithin]
    rcases i.runLineWithin_raise hl room line with hsame | ⟨journal, hlow, hhigh⟩
    · rw [← hsame]
      cases (i.withMaxDepth limit).runLineWithin room line with
      | none => exact Or.inl rfl
      | some ran =>
        simp only [Option.bind_some]
        by_cases hs : ran.reply.stops
        · left
          simp only [if_pos hs]
        · simp only [if_neg hs]
          rcases ih with ih | ⟨ls, hls, hcut⟩
          · rw [ih]
            exact Or.inl rfl
          · rw [hls]
            refine Or.inr ⟨_, rfl, ?_⟩
            have hafter := hcut.after ran.entries
            rw [Option.map_map] at hafter ⊢
            exact hafter
    · rw [hlow]
      refine Or.inr ⟨[(n, ⟨.failed (.depthExceeded limit), journal⟩)], rfl, journal.log, ?_, ?_⟩
      · intro whole hwhole
        obtain ⟨ls, hls, rfl⟩ := Option.map_eq_some_iff.mp hwhole
        obtain ⟨l, hline, hls⟩ := Option.bind_eq_some_iff.mp hls
        obtain ⟨later, hlater⟩ := hhigh l hline
        have hfirst : ∃ others, ls = (n, l) :: others := by
          by_cases hs : l.reply.stops
          · rw [if_pos hs] at hls
            exact ⟨[], (Option.some.inj hls).symm⟩
          · rw [if_neg hs] at hls
            obtain ⟨others, -, rfl⟩ := Option.map_eq_some_iff.mp hls
            exact ⟨others, rfl⟩
        obtain ⟨others, rfl⟩ := hfirst
        rw [Run.log_cons, LineRun.entries, hlater, Journal.append_log, List.append_assoc,
          List.append_assoc]
        exact List.prefix_append _ _
      · rw [Run.log_cons, LineRun.entries]
        show (journal.log ++ _) ++ [] = _
        rw [List.append_nil]
        rfl

theorem runLinesWithin_raise_of_calls_le (i : Interpreter) (hl : limit ≤ higher) (room : Nat)
    {lines : List (Nat × String)}
    (hcalls : ∀ numbered ∈ lines,
      (Text.words numbered.2).tail.countP i.registry.names ≤ limit) :
    (i.withMaxDepth limit).runLinesWithin room lines =
      (i.withMaxDepth higher).runLinesWithin room lines := by
  induction lines with
  | nil => rfl
  | cons numbered more ih =>
    obtain ⟨n, line⟩ := numbered
    obtain ⟨hline, hmore⟩ := List.forall_mem_cons.mp hcalls
    rw [runLinesWithin, runLinesWithin, i.runLineWithin_raise_of_calls_le hl room hline, ih hmore]

/-- the word for no output stands in the place of an empty log only, so a front stays one -/
theorem prefix_withSentinel (i : Interpreter) {front log : List Entry} (h : front <+: log) :
    front <+: i.withSentinel log := by
  unfold withSentinel
  split
  · rename_i hnil
    rw [hnil] at h
    rw [List.prefix_nil.mp h]
    exact List.nil_prefix
  · exact h

/-- **Raising the limit changes nothing but the failure to stay within it.**  A program that is answered
under some limit is answered under every lower one.  What is answered under the lower limit is the
answer under the higher one too, or it ends with the message that the limit was passed, and what stands
in front of that is the front of any answer under the higher one.  The answers are the same for certain
where no line that does something has more bare words that name commands, behind its first word, than
the lower limit. -/
theorem evaluateWithin_raise (i : Interpreter) (room : Nat) (p : Program) (hl : limit ≤ higher) :
    let low := (i.withMaxDepth limit).evaluateWithin room p
    let high := (i.withMaxDepth higher).evaluateWithin room p
    ((∃ log, high = some log) → ∃ log, low = some log) ∧
    (∀ log, low = some log → high = some log ∨
      ∃ front, (∀ whole, high = some whole → front <+: whole) ∧
        log = front ++
          [⟨.error, "Maximum nesting depth of " ++ toString limit ++ " exceeded."⟩]) ∧
    ((∀ numbered ∈ p.effective,
      (Text.words numbered.2).tail.countP i.registry.names ≤ limit) → low = high) := by
  intro low high
  have hlift : (i.withMaxDepth limit).runLinesWithin room p.effective =
      (i.withMaxDepth higher).runLinesWithin room p.effective → low = high :=
    congrArg fun answer => (Option.map Run.mk answer).map fun run => i.withSentinel run.log
  rcases i.runLinesWithin_raise hl room p.effective with hsame | ⟨ls, hls, front, hfront, hlog⟩
  · rw [hlift hsame]
    exact ⟨id, fun log h => Or.inl h, fun _ => rfl⟩
  · have hlow : low = some (Run.mk ls).log := by
      show (((i.withMaxDepth limit).runLinesWithin room p.effective).map Run.mk).map _ = _
      rw [hls]
      refine congrArg some (if_neg ?_)
      rw [hlog]
      simp
    refine ⟨fun _ => ⟨_, hlow⟩, fun log h => Or.inr ⟨front, fun whole hwhole => ?_, ?_⟩,
      fun hcalls => hlift (i.runLinesWithin_raise_of_calls_le hl room hcalls)⟩
    · obtain ⟨run, hrun, rfl⟩ := Option.map_eq_some_iff.mp hwhole
      obtain ⟨hs, hhigh, rfl⟩ := Option.map_eq_some_iff.mp hrun
      exact i.prefix_withSentinel (hfront _ (Option.map_eq_some_iff.mpr ⟨hs, hhigh, rfl⟩))
    · rw [← hlog]
      exact Option.some.inj (h.symm.trans hlow)

/-- with a warning of one value the second line has warned before `not` is too deep for the limit 1;
it has three words that name commands, and so the limit 3 is as good as any -/
theorem evaluateWithin_raise_warned :
    let warning : Command := ⟨.warn, .fixed 1, CommandName.warn.handler⟩
    let i : Interpreter := ⟨Registry.builtin.register warning, .default⟩
    let p := Program.lines ["print a", "print warn w add x not true", "print b"]
    ∃ low high, (i.withMaxDepth 1).evaluateWithin 2 p = some low ∧
      (i.withMaxDepth 2).evaluateWithin 2 p = some high ∧
      low = [⟨.info, "a"⟩, ⟨.warning, "w"⟩, ⟨.error, "Maximum nesting depth of 1 exceeded."⟩] ∧
      high = [⟨.info, "a"⟩, ⟨.warning, "w"⟩, ⟨.info, "true xfalse"⟩, ⟨.info, "b"⟩] ∧
      (∃ front, front <+: high ∧
        low = front ++ [⟨.error, "Maximum nesting depth of 1 exceeded."⟩]) ∧
      (i.withMaxDepth 3).evaluateWithin 2 p = (i.withMaxDepth 64).evaluateWithin 2 p := by
  intro warning i p
  obtain ⟨hanswered, hraise, -⟩ := i.evaluateWithin_raise 2 p (by decide : 1 ≤ 2)
  have hhigh : ∃ high, (i.withMaxDepth 2).evaluateWithin 2 p = some high :=
    Option.isSome_iff_exists.mp (by decide +kernel)
  obtain ⟨low, hlow⟩ := hanswered hhigh
  obtain ⟨high, hhigh⟩ := hhigh
  have hlowlog : low = [⟨.info, "a"⟩, ⟨.warning, "w"⟩,
      ⟨.error, "Maximum nesting depth of 1 exceeded."⟩] := by
    rw [(evaluateWithin_eq_some_iff.mp hlow).1]
    decide +kernel
  have hhighlog : high = [⟨.info, "a"⟩, ⟨.warning, "w"⟩, ⟨.info, "true xfalse"⟩, ⟨.info, "b"⟩] := by
    rw [(evaluateWithin_eq_some_iff.mp hhigh).1]
    decide +kernel
  refine ⟨low, high, hlow, hhigh, hlowlog, hhighlog, ?_,
    (i.evaluateWithin_raise 2 p (by decide : 3 ≤ 64)).2.2 (by decide +kernel)⟩
  rcases hraise low hlow with hsame | ⟨front, hfront, hcut⟩
  · have hlogs : low = high := Option.some.inj (hsame.symm.trans hhigh)
    rw [hlowlog, hhighlog] at hlogs
    exact absurd hlogs (by decide)
  · exact ⟨front, hfront high hhigh, hcut⟩

/-- a sum that takes more operands than there can be room for: under the limit 0 it is too deep inside a
line, and under the default limit a program that calls it there has no log -/
theorem evaluateWithin_none_of_raised_sum :
    let sum : Command := ⟨.add, .fixed 0xFFFFFFFFFFFFFFFF, CommandName.add.handler⟩
    let i : Interpreter := ⟨Registry.builtin.register sum, .default⟩
    let p := Program.source "print add 1 2"
    (i.withMaxDepth 0).evaluateWithin mostRoom p =
      some [⟨.error, "Maximum nesting depth of 0 exceeded."⟩] ∧
    (i.withMaxDepth 64).evaluateWithin mostRoom p = none := by
  intro sum i p
  constructor
  · decide +kernel
  · rw [← Option.isNone_iff_eq_none]
    decide +kernel

end

end Interpreter

end LineScript
