import LineScript.Shell.Options

/-!
# Command lines

Any choice of options can be written as a command line, and this is how it is read back.

* `Options.args`             a command line for some options;
* `Reading.Reaches`          arguments that lead from some options to others;
* `Invocation.ofArgs_args`   the command line for some options asks for these options.

Texts, paths and limits are arbitrary: a text may look like an option, since it is taken as the value
that an option waits for, and so may a path, since it comes behind the end of the options.
-/

namespace LineScript.Shell

/-! ## limits -/

theorem readDepthFrom_digits {cs : List Char} {n : Nat} (hd : ∀ c ∈ cs, c.isDigit)
    (h : Nat.ofDigitChars 10 cs n ≤ greatestDepth) :
    readDepthFrom n cs = .ok (Nat.ofDigitChars 10 cs n) := by
  induction cs generalizing n with
  | nil => rw [readDepthFrom, Nat.ofDigitChars_nil]
  | cons c cs ih =>
    obtain ⟨hc, hcs⟩ := List.forall_mem_cons.mp hd
    have hnext : n * 10 + (c.toNat - '0'.toNat) = 10 * n + (c.toNat - '0'.toNat) := by
      rw [Nat.mul_comm]
    rw [Nat.ofDigitChars_cons] at h ⊢
    have hle : 10 * n + (c.toNat - '0'.toNat) ≤
        Nat.ofDigitChars 10 cs (10 * n + (c.toNat - '0'.toNat)) := by
      rw [Nat.ofDigitChars_eq_ofDigitChars_zero]
      exact Nat.le_trans (Nat.le_mul_of_pos_left _ (Nat.pow_pos (by decide))) (Nat.le_add_right _ _)
    rw [readDepthFrom, if_pos hc, hnext]
    simp only
    rw [if_neg (Nat.not_lt.mpr (Nat.le_trans hle h)), ih hcs h]

/-- a limit is read back from its digits -/
theorem readDepth_toString {d : Nat} (h : d ≤ greatestDepth) : readDepth (toString d) = .ok d := by
  have hdigits : ∀ c ∈ Nat.toDigits 10 d, c.isDigit := fun c hc =>
    Nat.isDigit_of_mem_toDigits (by decide) (Nat.le_refl _) hc
  have hread := readDepthFrom_digits hdigits (n := 0) (by rwa [Nat.ofDigitChars_ten_toDigits])
  rw [Nat.ofDigitChars_ten_toDigits] at hread
  rw [readDepth, Nat.toString_eq_ofList_toDigits, String.toList_ofList]
  cases hcs : Nat.toDigits 10 d with
  | nil => exact absurd hcs Nat.toDigits_ne_nil
  | cons c cs =>
    rw [hcs] at hdigits hread
    have hc : c ≠ '+' := by
      rintro rfl
      exact absurd (hdigits '+' List.mem_cons_self) (by decide)
    split
    · rename_i heq
      cases heq
    · rename_i heq
      exact absurd (List.cons.inj heq).1 hc
    · rename_i heq
      exact absurd (List.cons.inj heq).1 hc
    · exact hread

/-! ## arguments -/

namespace Options

def flag (given : Bool) (arg : String) : List String := if given then [arg] else []

/-- the option and its value, if there is one -/
def valued (arg : String) : Option String → List String
  | some value => [arg, value]
  | none => []

theorem valued_none (arg : String) : valued arg none = [] := rfl

/-- the file comes last, behind the end of the options -/
def args (o : Options) : List String :=
  flag o.stdin "--stdin" ++ flag o.raw "--raw" ++ flag o.verbose "-v" ++ valued "-e" o.eval?
    ++ valued "--max-depth" (o.maxDepth?.map toString) ++ valued "--" o.file?

end Options

namespace Reading

/-- options have been read, and nothing else -/
def ofOptions (o : Options) : Reading := ⟨o, false, false, none⟩

/-- reading some arguments leads from options to others -/
def Reaches (o : Options) (args : List String) (o' : Options) : Prop :=
  args.foldlM step (ofOptions o) = .ok (ofOptions o')

theorem Reaches.append {o o' o'' : Options} {args args' : List String} (h : Reaches o args o')
    (h' : Reaches o' args' o'') : Reaches o (args ++ args') o'' := by
  rw [Reaches, List.foldlM_append, h]
  exact h'

/-- an option that waits takes the next argument as its value -/
theorem step_of_pending {r : Reading} {name : OptionName} {written value : String} {o : Options}
    (h : r.pending? = some (name, written)) (ht : take r.options name value = .ok o) :
    r.step value = .ok { r with options := o, pending? := none } := by
  rw [step, h]
  simp only [ht]

theorem reaches_limit {o : Options} {d : Nat} (h : o.maxDepth? = none) (hd : d ≤ greatestDepth) :
    Reaches o ["--max-depth", toString d] { o with maxDepth? := some d } := by
  have htake : take o .maxDepth (toString d) = .ok { o with maxDepth? := some d } := by
    rw [take, h, readDepth_toString hd]
    rfl
  show List.foldlM step ⟨o, false, false, some (.maxDepth, "--max-depth")⟩ [toString d] = _
  rw [List.foldlM_cons, step_of_pending rfl htake]
  rfl

/-- the options in front of the file are read one after the other -/
theorem reaches_args {o : Options} (hf : o.file? = none)
    (hd : ∀ d, o.maxDepth? = some d → d ≤ greatestDepth) : Reaches .blank o.args o := by
  obtain ⟨_, stdin, eval?, raw, maxDepth?, verbose⟩ := o
  obtain rfl := hf
  have hstdin : Reaches .blank (Options.flag stdin "--stdin")
      ⟨none, stdin, none, false, none, false⟩ := by
    cases stdin <;> rfl
  have hraw : Reaches ⟨none, stdin, none, false, none, false⟩ (Options.flag raw "--raw")
      ⟨none, stdin, none, raw, none, false⟩ := by
    cases raw <;> rfl
  have hverbose : Reaches ⟨none, stdin, none, raw, none, false⟩ (Options.flag verbose "-v")
      ⟨none, stdin, none, raw, none, verbose⟩ := by
    cases verbose <;> rfl
  have heval : Reaches ⟨none, stdin, none, raw, none, verbose⟩ (Options.valued "-e" eval?)
      ⟨none, stdin, eval?, raw, none, verbose⟩ := by
    cases eval? <;> rfl
  have hdepth : Reaches ⟨none, stdin, eval?, raw, none, verbose⟩
      (Options.valued "--max-depth" (maxDepth?.map toString))
      ⟨none, stdin, eval?, raw, maxDepth?, verbose⟩ := by
    cases maxDepth? with
    | none => rfl
    | some d => exact reaches_limit rfl (hd d rfl)
  exact ((((hstdin.append hraw).append hverbose).append heval).append hdepth).append rfl

end Reading

/-- the command line for some options asks for them -/
theorem Invocation.ofArgs_args {o : Options} (h : ∀ d, o.maxDepth? = some d → d ≤ greatestDepth) :
    ofArgs o.args = .ok (.run o) := by
  obtain ⟨file?, stdin, eval?, raw, maxDepth?, verbose⟩ := o
  have hfront : Reading.Reaches .blank _ ⟨none, stdin, eval?, raw, maxDepth?, verbose⟩ :=
    Reading.reaches_args rfl h
  have hargs : Options.args ⟨file?, stdin, eval?, raw, maxDepth?, verbose⟩ =
      Options.args ⟨none, stdin, eval?, raw, maxDepth?, verbose⟩ ++ Options.valued "--" file? := by
    rw [Options.args, Options.args, Options.valued_none, List.append_nil]
  rw [ofArgs, hargs, List.foldlM_append, show Reading.start = .ofOptions .blank from rfl, hfront]
  cases file? <;> rfl

end LineScript.Shell
