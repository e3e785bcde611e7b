import LineScript.Interpreter

/-!
# Running on one journal

A part of a run tells what was noted in it, and whoever runs the parts puts that together.  Here one
journal is handed from part to part instead, and every part adds to the journal it is given.

* `Registry.expandOn`       expands arguments on a journal, and `Registry.expandOnWithin` within some
                            room;
* `Interpreter.runLineOn`   runs a line on a journal;
* `Interpreter.runOn`       runs a program on a journal, and tells whether it was halted.

Both ways come to the same: what is noted goes behind what the journal held, whatever that was, and
neither the values nor the stop depend on it (`Registry.expandOn_eq`, `Registry.expandOnWithin_eq`,
`Interpreter.runLineOn_eq`, `Interpreter.runOn_eq`).
-/

namespace LineScript

/-! ## expanding -/

/-- an expansion as it is told to one who held a journal before it -/
def Expansion.onto (j : Journal) (e : Expansion) : Expansion :=
  { e with journal := j ++ e.journal }

@[simp]
theorem Expansion.onto_used (j : Journal) (e : Expansion) : (e.onto j).used = e.used := rfl

@[simp]
theorem Expansion.onto_result (j : Journal) (e : Expansion) : (e.onto j).result = e.result := rfl

@[simp]
theorem Expansion.onto_journal (j : Journal) (e : Expansion) :
    (e.onto j).journal = j ++ e.journal := rfl

def Registry.expandOn (r : Registry) (limit depth : Nat) (wanted : Arity) (j : Journal) :
    List Argument → Expansion
  | [] => ⟨0, .ok [], j⟩
  | arg :: more =>
    if wanted.isFull then ⟨0, .ok [], j⟩
    else match r.commandOf? arg with
      | none =>
        let e := r.expandOn limit depth wanted.pred j more
        ⟨1 + e.used, e.result.map (arg.value :: ·), e.journal⟩
      | some c =>
        if limit < depth then ⟨1, .error (.failed (.depthExceeded limit)), j⟩
        else
          let inner := r.expandOn limit (depth + 1) c.arity j more
          match inner.result with
          | .error reply => ⟨inner.used + 1, .error reply, inner.journal⟩
          | .ok values =>
            let reply := c.run values
            let called := inner.journal ++ .ofEvent (.expanding c.name depth values)
            if reply.stops then ⟨inner.used + 1, .error reply, called⟩
            else
              let e := r.expandOn limit depth wanted.pred (called ++ .ofLog reply.outcome.entries)
                (more.drop inner.used)
              ⟨inner.used + 1 + e.used, e.result.map (reply.outcome.valueD :: ·), e.journal⟩
termination_by args => args.length
decreasing_by
  · exact Nat.lt_succ_self more.length
  · exact Nat.lt_succ_self more.length
  · exact length_drop_lt_cons arg more _

/-- expanding on a journal adds to its end what expanding alone notes, and gives the same -/
theorem Registry.expandOn_eq (r : Registry) (limit depth : Nat) (wanted : Arity) (j : Journal)
    (args : List Argument) :
    r.expandOn limit depth wanted j args = (r.expand limit depth wanted args).onto j := by
  fun_induction Registry.expand r limit depth wanted args generalizing j
  case case1 depth wanted =>
    rw [expandOn, Expansion.onto, Expansion.nothing, Journal.append_empty]
  case case2 depth wanted arg more hf =>
    rw [expandOn, if_pos hf, Expansion.onto, Expansion.nothing, Journal.append_empty]
  case case3 depth wanted arg more hf hc ih =>
    rw [expandOn, if_neg hf, hc]
    simp only [ih, Expansion.onto, Expansion.after, Journal.empty_append]
  case case4 depth wanted arg more hf c hc hd =>
    rw [expandOn, if_neg hf, hc]
    simp only [if_pos hd, Expansion.onto, Journal.append_empty]
  case case5 depth wanted arg more hf c hc hd inner reply hi ih =>
    simp only [inner] at hi
    rw [expandOn, if_neg hf, hc]
    simp only [if_neg hd, ih, Expansion.onto_result, hi]
    rfl
  case case6 depth wanted arg more hf c hc hd inner values hi reply called hs ih =>
    simp only [inner] at hi
    rw [expandOn, if_neg hf, hc]
    simp only [if_neg hd, ih, Expansion.onto_result, hi]
    rw [if_pos hs]
    simp only [Expansion.onto, Journal.append_assoc, called, inner, reply]
  case case7 depth wanted arg more hf c hc hd inner values hi reply called hs ih1 ih2 =>
    simp only [inner] at hi ih2
    rw [expandOn, if_neg hf, hc]
    simp only [if_neg hd, ih1, Expansion.onto_result, hi]
    rw [if_neg hs]
    simp only [Expansion.onto_used, ih2]
    simp only [Expansion.onto, Expansion.after, Journal.append_assoc, called, inner, reply]

/-- expands arguments on a journal with room for so many values -/
def Registry.expandOnWithin (r : Registry) (room limit depth : Nat) (wanted : Arity) (j : Journal) :
    List Argument → Option Expansion
  | [] => some ⟨0, .ok [], j⟩
  | arg :: more =>
    if wanted.isFull then some ⟨0, .ok [], j⟩
    else match r.commandOf? arg with
      | none =>
        (r.expandOnWithin room limit depth wanted.pred j more).map fun e =>
          ⟨1 + e.used, e.result.map (arg.value :: ·), e.journal⟩
      | some c =>
        if limit < depth then some ⟨1, .error (.failed (.depthExceeded limit)), j⟩
        else if room < c.arity.reserved then none
        else (r.expandOnWithin room limit (depth + 1) c.arity j more).bind fun inner =>
          match inner.result with
          | .error reply => some ⟨inner.used + 1, .error reply, inner.journal⟩
          | .ok values =>
            (c.run? values).bind fun reply =>
              let called := inner.journal ++ .ofEvent (.expanding c.name depth values)
              if reply.stops then some ⟨inner.used + 1, .error reply, called⟩
              else
                (r.expandOnWithin room limit depth wanted.pred
                  (called ++ .ofLog reply.outcome.entries) (more.drop inner.used)).map fun e =>
                    ⟨inner.used + 1 + e.used, e.result.map (reply.outcome.valueD :: ·), e.journal⟩
termination_by args => args.length
decreasing_by
  · exact Nat.lt_succ_self more.length
  · exact Nat.lt_succ_self more.length
  · exact length_drop_lt_cons arg more _

/-- nor does it depend on the journal whether there is an answer -/
theorem Registry.expandOnWithin_eq (r : Registry) (room limit depth : Nat) (wanted : Arity)
    (j : Journal) (args : List Argument) :
    r.expandOnWithin room limit depth wanted j args =
      (r.expandWithin room limit depth wanted args).map (.onto j) := by
  fun_induction Registry.expandWithin r room limit depth wanted args generalizing j
  case case1 depth wanted =>
    rw [expandOnWithin, Option.map_some, Expansion.onto, Expansion.nothing, Journal.append_empty]
  case case2 depth wanted arg more hf =>
    rw [expandOnWithin, if_pos hf, Option.map_some, Expansion.onto, Expansion.nothing,
      Journal.append_empty]
  case case3 depth wanted arg more hf hc ih =>
    rw [expandOnWithin, if_neg hf, hc]
    simp only [ih, Option.map_map]
    rfl
  case case4 depth wanted arg more hf c hc hd =>
    rw [expandOnWithin, if_neg hf, hc]
    simp only [if_pos hd, Option.map_some, Expansion.onto, Journal.append_empty]
  case case5 depth wanted arg more hf c hc hd hroom =>
    rw [expandOnWithin, if_neg hf, hc]
    simp only [if_neg hd, if_pos hroom, Option.map_none]
  case case6 depth wanted arg more hf c hc hd hroom ih1 ih2 =>
    rw [expandOnWithin, if_neg hf, hc]
    simp only [if_neg hd, if_neg hroom, ih1, ih2]
    cases r.expandWithin room limit (depth + 1) c.arity more with
    | none => rfl
    | some inner =>
      simp only [Option.map_some, Option.bind_some, Expansion.onto]
      cases inner.result with
      | error reply => rfl
      | ok values =>
        cases hreply : c.run? values with
        | none => simp only [hreply, Option.bind_none, Option.map_none]
        | some reply =>
          simp only [hreply, Option.bind_some]
          by_cases hs : reply.stops
          · simp only [if_pos hs, Option.map_some, Expansion.onto, Journal.append_assoc]
          · simp only [if_neg hs, Option.map_map, Journal.append_assoc]
            refine congrArg (fun g => Option.map g _) (funext fun e => ?_)
            simp only [Function.comp, Expansion.onto, Expansion.after, Journal.append_assoc]

/-! ## lines -/

/-- the run of a line as it is told to one who held a journal before it -/
def LineRun.onto (j : Journal) (l : LineRun) : LineRun :=
  { l with journal := j ++ l.journal }

namespace Interpreter

def dispatchOn (i : Interpreter) (j : Journal) (word : String) (values : List Value) : LineRun :=
  match i.registry.lookup? word with
  | some c => ⟨c.run values, j ++ .ofEvent (.dispatching word values)⟩
  | none => ⟨.failed (.unknownCommand word), j⟩

def runWordsOn (i : Interpreter) (j : Journal) : List String → LineRun
  | [] => ⟨.done .nothing, j⟩
  | word :: rest =>
    match i.registry.lookup? word with
    | none => i.dispatchOn j word []
    | some _ =>
      let e := i.registry.expandOn i.config.maxDepth 1 .variadic j (rest.map Argument.ofWord)
      match e.result with
      | .error reply => ⟨reply, e.journal⟩
      | .ok values => i.dispatchOn e.journal word values

def runLineOn (i : Interpreter) (j : Journal) (line : String) : LineRun :=
  i.runWordsOn j (Text.words line)

theorem dispatchOn_eq (i : Interpreter) (j : Journal) (word : String) (values : List Value) :
    i.dispatchOn j word values = (i.dispatch word values).onto j := by
  unfold dispatchOn dispatch
  cases i.registry.lookup? word with
  | none => simp only [LineRun.onto, Journal.append_empty]
  | some c => rfl

theorem runWordsOn_eq (i : Interpreter) (j : Journal) (words : List String) :
    i.runWordsOn j words = (i.runWords words).onto j := by
  cases words with
  | nil => simp only [runWordsOn, runWords, LineRun.onto, Journal.append_empty]
  | cons word rest =>
    cases hc : i.registry.lookup? word with
    | none =>
      rw [runWordsOn, hc, runWords, hc]
      exact i.dispatchOn_eq j word []
    | some c =>
      rw [runWordsOn, hc]
      simp only [Registry.expandOn_eq, Expansion.onto_result, Expansion.onto_journal]
      cases he : (i.expand (rest.map Argument.ofWord)).result with
      | error reply =>
        rw [runWords_of_error hc he]
        simp only [expand] at he
        simp only [he, expand, LineRun.onto]
      | ok values =>
        rw [runWords_of_ok hc he]
        simp only [expand] at he
        simp only [he, expand, dispatchOn_eq, dispatch_of_lookup hc, LineRun.onto,
          Journal.append_assoc]

theorem runLineOn_eq (i : Interpreter) (j : Journal) (line : String) :
    i.runLineOn j line = (i.runLine line).onto j :=
  i.runWordsOn_eq j (Text.words line)

end Interpreter

/-! ## programs -/

namespace Run

def journal (r : Run) : Journal := ⟨r.log, r.events⟩

def halted (r : Run) : Bool := r.haltLine?.isSome

theorem journal_nil : (Run.mk []).journal = .empty := rfl

/-- a line that stops is noted behind its last entry, and any other line is followed by the rest -/
theorem journal_cons (n : Nat) (l : LineRun) (ls : List (Nat × LineRun)) :
    (Run.mk ((n, l) :: ls)).journal = l.journal ++ .ofLog l.reply.outcome.entries
      ++ (if l.reply.stops then .ofEvent (.halted n) else .empty) ++ (Run.mk ls).journal := by
  have hl : (if l.reply.stops then Journal.ofEvent (.halted n) else .empty) =
      ⟨[], if l.reply.stops then [.halted n] else []⟩ := by
    split <;> rfl
  rw [hl]
  apply Journal.ext
  · simp [journal, log_cons, LineRun.entries, Journal.append_log, Journal.ofLog]
  · simp [journal, events_cons, Journal.append_events, Journal.ofLog]

end Run

namespace Interpreter

/-- runs lines on a journal up to the first that stops: the journal, and whether one stopped -/
def runLinesOn (i : Interpreter) (j : Journal) : List (Nat × String) → Journal × Bool
  | [] => (j, false)
  | (n, line) :: more =>
    let ran := i.runLineOn j line
    let noted := ran.journal ++ .ofLog ran.reply.outcome.entries
    if ran.reply.stops then (noted ++ .ofEvent (.halted n), true)
    else i.runLinesOn noted more

def runOn (i : Interpreter) (j : Journal) (p : Program) : Journal × Bool :=
  i.runLinesOn j p.effective

theorem runLinesOn_eq (i : Interpreter) (j : Journal) (lines : List (Nat × String)) :
    i.runLinesOn j lines =
      (j ++ (Run.mk (i.runLines lines)).journal, (Run.mk (i.runLines lines)).halted) := by
  induction lines generalizing j with
  | nil =>
    rw [runLinesOn, runLines]
    exact congrArg (·, false) (Journal.append_empty j).symm
  | cons numbered more ih =>
    obtain ⟨n, line⟩ := numbered
    by_cases hs : (i.runLine line).reply.stops
    · rw [runLinesOn, runLines_of_stops hs]
      simp only [runLineOn_eq, LineRun.onto]
      rw [if_pos hs]
      simp only [Run.journal_cons, Run.journal_nil, Run.halted, Run.haltLine?_cons, hs, if_true,
        Journal.append_empty, Journal.append_assoc, Option.isSome_some]
    · rw [runLinesOn, runLines_of_goes_on hs]
      simp only [runLineOn_eq, LineRun.onto]
      rw [if_neg hs, ih]
      simp only [Run.journal_cons, Run.halted, Run.haltLine?_cons, if_neg hs,
        Journal.append_empty, Journal.append_assoc]

theorem runOn_eq (i : Interpreter) (j : Journal) (p : Program) :
    i.runOn j p = (j ++ (i.run p).journal, (i.run p).halted) :=
  i.runLinesOn_eq j p.effective

end Interpreter

end LineScript
