import Mathlib.Logic.ExistsUnique
import LineScript.Expansion

/-!
# The forest of a list of arguments

Arguments have no brackets, but their arities say how they hang together: an argument that calls a
command stands above the arguments that the command takes, and any other argument stands alone.  The
list is the preorder of these trees.

* `Forest`            trees side by side;
* `Forest.Shaped`     every call stands above as many trees as its arity asks for;
* `Registry.Parses`   a forest of that shape whose preorder is a given list of arguments;
* `Registry.forest`   the forest that is read off the front of a list;
* `Forest.calls`      how many calls there are in a forest.

Every list of arguments has exactly one forest (`Registry.existsUnique_parses`), and its calls are the
words that name a registered command (`Registry.Parses.calls_eq`).
-/

namespace LineScript

/-! ## arities -/

/-- so many trees meet an arity, in front of what is left: fewer than it asks for only at the end -/
def Arity.MetBy (trees : Nat) (rest : List Argument) : Arity → Prop
  | .fixed count => trees = count ∨ trees < count ∧ rest = []
  | .variadic => rest = []

namespace Arity

theorem metBy_zero_of_isFull {a : Arity} (h : a.isFull) (rest : List Argument) :
    a.MetBy 0 rest := by
  cases a with
  | fixed count =>
    have hc : count = 0 := by simpa [isFull] using h
    exact Or.inl hc.symm
  | variadic => simp [isFull] at h

theorem metBy_zero_nil (a : Arity) : a.MetBy 0 [] := by
  cases a with
  | fixed count =>
    rcases Nat.eq_zero_or_pos count with h | h
    · exact Or.inl h.symm
    · exact Or.inr ⟨h, rfl⟩
  | variadic => rfl

theorem MetBy.eq_zero {a : Arity} {trees : Nat} {rest : List Argument} (h : a.MetBy trees rest)
    (hf : a.isFull) : trees = 0 := by
  cases a with
  | fixed count =>
    have hc : count = 0 := by simpa [isFull] using hf
    rcases h with h | ⟨h, -⟩ <;> omega
  | variadic => simp [isFull] at hf

/-- without a tree an arity that asks for one is met at the end only -/
theorem MetBy.eq_nil {a : Arity} {rest : List Argument} (h : a.MetBy 0 rest)
    (hf : ¬a.isFull) : rest = [] := by
  cases a with
  | fixed count =>
    rcases h with h | ⟨-, h⟩
    · exact absurd (by simp [isFull, ← h]) hf
    · exact h
  | variadic => exact h

theorem metBy_succ {a : Arity} (hf : ¬a.isFull) (trees : Nat) (rest : List Argument) :
    a.MetBy (trees + 1) rest ↔ a.pred.MetBy trees rest := by
  cases a with
  | fixed count =>
    have hc : count ≠ 0 := by simpa [isFull] using hf
    have h1 : trees + 1 = count ↔ trees = count - 1 := by omega
    have h2 : trees + 1 < count ↔ trees < count - 1 := by omega
    simp only [MetBy, pred, h1, h2]
  | variadic => exact Iff.rfl

/-- a fixed arity is never met by more trees than it asks for -/
theorem MetBy.roots_le {count trees : Nat} {rest : List Argument}
    (h : (fixed count).MetBy trees rest) : trees ≤ count := by
  rcases h with h | ⟨h, -⟩ <;> omega

/-- at the end an arity is met by no more trees than it asks for -/
theorem metBy_nil_fixed {count trees : Nat} :
    (fixed count).MetBy trees [] ↔ trees ≤ count := by
  simp only [MetBy, and_true]
  omega

end Arity

/-! ## forests -/

/-- trees side by side: in front of the others stands a plain argument, or one that calls a command
on the trees below it -/
inductive Forest where
  | nil
  | leaf (arg : Argument) (more : Forest)
  | call (arg : Argument) (c : Command) (operands more : Forest)

namespace Forest

def roots : Forest → Nat
  | .nil => 0
  | .leaf _ more => more.roots + 1
  | .call _ _ _ more => more.roots + 1

/-- the arguments at the nodes, each in front of what stands below it -/
def preorder : Forest → List Argument
  | .nil => []
  | .leaf arg more => arg :: more.preorder
  | .call arg _ operands more => arg :: (operands.preorder ++ more.preorder)

/-- the leaves are the arguments that call no command, and every other node stands above the trees
that the arity of its command asks for; `rest` is what follows the forest -/
def Shaped (r : Registry) (rest : List Argument) : Forest → Prop
  | .nil => True
  | .leaf arg more => r.commandOf? arg = none ∧ more.Shaped r rest
  | .call arg c operands more =>
    r.commandOf? arg = some c ∧
    c.arity.MetBy operands.roots (more.preorder ++ rest) ∧
    operands.Shaped r (more.preorder ++ rest) ∧
    more.Shaped r rest

theorem eq_nil_of_roots {f : Forest} (h : f.roots = 0) : f = .nil := by
  cases f with
  | nil => rfl
  | leaf arg more => simp [roots] at h
  | call arg c operands more => simp [roots] at h

theorem eq_nil_of_preorder {f : Forest} (h : f.preorder = []) : f = .nil := by
  cases f with
  | nil => rfl
  | leaf arg more => simp [preorder] at h
  | call arg c operands more => simp [preorder] at h

/-- a forest at the front of some arguments that meets an arity, and what is left behind it -/
structure Reads (r : Registry) (wanted : Arity) (args rest : List Argument) (f : Forest) : Prop where
  args_eq : f.preorder ++ rest = args
  met : wanted.MetBy f.roots rest
  shaped : f.Shaped r rest

end Forest

namespace Registry

def Parses (r : Registry) (args : List Argument) (f : Forest) : Prop :=
  f.preorder = args ∧ f.Shaped r []

theorem parses_iff_reads {r : Registry} {args : List Argument} {f : Forest} :
    r.Parses args f ↔ f.Reads r .variadic args [] := by
  constructor
  · rintro ⟨hp, hs⟩
    exact ⟨by rw [List.append_nil, hp], rfl, hs⟩
  · rintro ⟨hp, -, hs⟩
    exact ⟨by rw [← hp, List.append_nil], hs⟩

/-! ## reading -/

def forest (r : Registry) (wanted : Arity) : List Argument → Forest
  | [] => .nil
  | arg :: more =>
    if wanted.isFull then .nil
    else match r.commandOf? arg with
      | none => .leaf arg (r.forest wanted.pred more)
      | some c =>
        let operands := r.forest c.arity more
        .call arg c operands (r.forest wanted.pred (more.drop operands.preorder.length))
termination_by args => args.length
decreasing_by
  · exact Nat.lt_succ_self more.length
  · exact Nat.lt_succ_self more.length
  · exact length_drop_lt_cons arg more _

theorem reads_forest (r : Registry) (wanted : Arity) (args : List Argument) :
    ∃ rest, (r.forest wanted args).Reads r wanted args rest := by
  fun_induction forest r wanted args with
  | case1 wanted => exact ⟨[], rfl, wanted.metBy_zero_nil, trivial⟩
  | case2 wanted arg more hf =>
    exact ⟨arg :: more, rfl, Arity.metBy_zero_of_isFull hf _, trivial⟩
  | case3 wanted arg more hf hc ih =>
    obtain ⟨rest, hp, hm, hs⟩ := ih
    refine ⟨rest, ?_, (Arity.metBy_succ hf _ _).mpr hm, hc, hs⟩
    rw [Forest.preorder, List.cons_append, hp]
  | case4 wanted arg more hf c hc operands ih1 ih2 =>
    obtain ⟨left, hp1, hm1, hs1⟩ := ih1
    obtain ⟨rest, hp2, hm2, hs2⟩ := ih2
    have hleft : more.drop operands.preorder.length = left := by
      rw [← hp1, List.drop_left]
    rw [hleft] at hp2 hm2 hs2 ⊢
    refine ⟨rest, ?_, (Arity.metBy_succ hf _ _).mpr hm2, hc, ?_, ?_, hs2⟩
    · rw [Forest.preorder, List.cons_append, List.append_assoc, hp2, hp1]
    · rwa [hp2]
    · rwa [hp2]

/-- a list of arguments is read in one way only -/
theorem eq_forest {r : Registry} {wanted : Arity} {args rest : List Argument} {f : Forest}
    (h : f.Reads r wanted args rest) : f = r.forest wanted args := by
  fun_induction forest r wanted args generalizing f rest
  case case1 wanted => exact Forest.eq_nil_of_preorder (List.append_eq_nil_iff.mp h.args_eq).1
  case case2 wanted arg more hf => exact Forest.eq_nil_of_roots (h.met.eq_zero hf)
  case case3 wanted arg more hf hc ih =>
    obtain ⟨hp, hm, hs⟩ := h
    cases f with
    | nil =>
      rw [hm.eq_nil hf] at hp
      cases hp
    | leaf a f =>
      obtain ⟨ha, hmore⟩ := List.cons.inj hp
      rw [ha, ih ⟨hmore, (Arity.metBy_succ hf _ _).mp hm, hs.2⟩]
    | call a c operands f =>
      have ha : a = arg := (List.cons.inj hp).1
      have hcall := hs.1
      rw [ha, hc] at hcall
      cases hcall
  case case4 wanted arg more hf c hc operands ih1 ih2 =>
    obtain ⟨hp, hm, hs⟩ := h
    cases f with
    | nil =>
      rw [hm.eq_nil hf] at hp
      cases hp
    | leaf a f =>
      have ha : a = arg := (List.cons.inj hp).1
      have hplain := hs.1
      rw [ha, hc] at hplain
      cases hplain
    | call a c' below f =>
      obtain ⟨ha, hmore⟩ := List.cons.inj hp
      obtain ⟨hc', hm', hs', hs⟩ := hs
      rw [ha, hc] at hc'
      cases hc'
      have hbelow : below.preorder ++ (f.preorder ++ rest) = more := by
        rw [← List.append_assoc]
        exact hmore
      have hop : below = operands := ih1 ⟨hbelow, hm', hs'⟩
      have hleft : f.preorder ++ rest = more.drop operands.preorder.length := by
        rw [← hop, ← hbelow, List.drop_left]
      rw [ha, hop, ih2 ⟨hleft, (Arity.metBy_succ hf _ _).mp hm, hs⟩]

theorem parses_forest (r : Registry) (args : List Argument) :
    r.Parses args (r.forest .variadic args) := by
  obtain ⟨rest, h⟩ := r.reads_forest .variadic args
  have hrest : rest = [] := h.met
  rw [hrest] at h
  exact parses_iff_reads.mpr h

theorem Parses.eq_forest {r : Registry} {args : List Argument} {f : Forest}
    (h : r.Parses args f) : f = r.forest .variadic args :=
  Registry.eq_forest (parses_iff_reads.mp h)

theorem existsUnique_parses (r : Registry) (args : List Argument) : ∃! f, r.Parses args f :=
  ⟨r.forest .variadic args, r.parses_forest args, fun _ h => h.eq_forest⟩

end Registry

/-! ## counting calls -/

namespace Forest

def calls : Forest → Nat
  | .nil => 0
  | .leaf _ more => more.calls
  | .call _ _ operands more => operands.calls + 1 + more.calls

theorem Shaped.calls_eq {r : Registry} {rest : List Argument} {f : Forest}
    (h : f.Shaped r rest) : f.calls = f.preorder.countP fun arg => (r.commandOf? arg).isSome := by
  induction f generalizing rest with
  | nil => rfl
  | leaf arg more ih =>
    obtain ⟨hc, hmore⟩ := h
    rw [calls, preorder, List.countP_cons, hc, ih hmore]
    rfl
  | call arg c operands more ih1 ih2 =>
    obtain ⟨hc, -, ho, hmore⟩ := h
    rw [calls, preorder, List.countP_cons, hc, List.countP_append, ih1 ho, ih2 hmore]
    simp only [Option.isSome_some, if_true]
    omega

end Forest

/-- the word of a command is neither bound nor between quotes -/
theorem Argument.ofWord_word (n : CommandName) : Argument.ofWord n.word = .word n.word := by
  cases n <;> decide +kernel

namespace Registry

/-- no bound word stands for the word of a command, and so a word of a line calls what it names -/
theorem commandOf?_ofWord (r : Registry) (w : String) :
    r.commandOf? (.ofWord w) = r.lookup? w := by
  cases hn : CommandName.ofWord? w with
  | some n =>
    rw [← CommandName.word_of_ofWord? hn, Argument.ofWord_word]
    rfl
  | none =>
    have hlookup : r.lookup? w = none := by rw [lookup?, hn, Option.bind_none]
    have hversion : r.lookup? version = none := by
      rw [lookup?, show CommandName.ofWord? version = none by decide, Option.bind_none]
    have hhost : r.lookup? host = none := by
      rw [lookup?, show CommandName.ofWord? host = none by decide, Option.bind_none]
    rw [hlookup]
    unfold Argument.ofWord binding?
    by_cases hv : w = "_VERSION"
    · rw [if_pos hv]
      exact hversion
    by_cases hl : w = "_LANG"
    · rw [if_neg hv, if_pos hl]
      exact hhost
    rw [if_neg hv, if_neg hl]
    cases unquote? w.toList with
    | none => exact hlookup
    | some cs => rfl

/-- a bare word that names a registered command -/
def names (r : Registry) (w : String) : Bool :=
  Argument.ofWord w == .word w && (r.lookup? w).isSome

theorem names_eq (r : Registry) (w : String) : r.names w = (r.lookup? w).isSome := by
  unfold names
  cases hc : r.lookup? w with
  | none => exact Bool.and_false _
  | some c =>
    have hbare : Argument.ofWord w = .word w := by
      rw [(find?_of_lookup? hc).1, Argument.ofWord_word]
    rw [hbare, beq_self_eq_true]
    rfl

theorem Parses.calls_eq {r : Registry} {tokens : List String} {f : Forest}
    (h : r.Parses (tokens.map Argument.ofWord) f) : f.calls = tokens.countP r.names := by
  rw [h.2.calls_eq, h.1, List.countP_map]
  congr 1
  funext w
  rw [names_eq]
  exact congrArg _ (r.commandOf?_ofWord w)

end Registry

end LineScript
