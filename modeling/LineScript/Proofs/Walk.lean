import LineScript.Interpreter
import LineScript.Proofs.Forest

/-!
# Expanding is walking the forest

The trees of some arguments are walked from left to right, and what stands below a call before the
call itself.

* `Forest.walk`   what walking a forest gives, with what it notes.

Expanding arguments is walking their forest (`Registry.expand_eq_walk`), and a line is run on what the
walk gives (`Interpreter.runWords_of_walk_error`, `Interpreter.runWords_of_walk_ok`).
-/

namespace LineScript

namespace Forest

/-- walks a forest whose trees stand at `depth`.  A leaf gives the value of its argument.  A call that
stands too deep stops the walk at once; any other is run on the values of its operands, and either
stops the walk or leaves its entry and gives its value. -/
def walk (limit depth : Nat) : Forest → Except Reply (List Value) × Journal
  | .nil => (.ok [], .empty)
  | .leaf arg more =>
    let (rest, noted) := more.walk limit depth
    (rest.map (arg.value :: ·), noted)
  | .call _ c operands more =>
    if limit < depth then (.error (.failed (.depthExceeded limit)), .empty)
    else match operands.walk limit (depth + 1) with
      | (.error reply, noted) => (.error reply, noted)
      | (.ok values, noted) =>
        let reply := c.run values
        let called := noted ++ .ofEvent (.expanding c.name depth values)
        if reply.stops then (.error reply, called)
        else
          let (rest, later) := more.walk limit depth
          (rest.map (reply.outcome.valueD :: ·), called ++ .ofLog reply.outcome.entries ++ later)

theorem walk_nil (limit depth : Nat) : Forest.nil.walk limit depth = (.ok [], .empty) := rfl

theorem walk_leaf (limit depth : Nat) (arg : Argument) (more : Forest) :
    (leaf arg more).walk limit depth =
      ((more.walk limit depth).1.map (arg.value :: ·), (more.walk limit depth).2) := rfl

section
variable {limit depth : Nat} {c : Command} {operands : Forest} {noted : Journal}

theorem walk_call_of_lt (hd : limit < depth) (arg : Argument) (c : Command)
    (operands more : Forest) :
    (call arg c operands more).walk limit depth =
      (.error (.failed (.depthExceeded limit)), .empty) := by
  rw [walk, if_pos hd]

theorem walk_call_of_error (hd : ¬limit < depth) {reply : Reply}
    (ho : operands.walk limit (depth + 1) = (.error reply, noted)) (arg : Argument)
    (more : Forest) : (call arg c operands more).walk limit depth = (.error reply, noted) := by
  rw [walk, if_neg hd, ho]

theorem walk_call_of_stops (hd : ¬limit < depth) {values : List Value}
    (ho : operands.walk limit (depth + 1) = (.ok values, noted)) (hs : (c.run values).stops)
    (arg : Argument) (more : Forest) :
    (call arg c operands more).walk limit depth =
      (.error (c.run values), noted ++ .ofEvent (.expanding c.name depth values)) := by
  rw [walk, if_neg hd, ho]
  simp only [hs, if_true]

theorem walk_call_of_goes_on (hd : ¬limit < depth) {values : List Value}
    (ho : operands.walk limit (depth + 1) = (.ok values, noted)) (hs : ¬(c.run values).stops)
    (arg : Argument) (more : Forest) :
    (call arg c operands more).walk limit depth =
      ((more.walk limit depth).1.map ((c.run values).outcome.valueD :: ·),
        noted ++ .ofEvent (.expanding c.name depth values)
          ++ .ofLog (c.run values).outcome.entries ++ (more.walk limit depth).2) := by
  rw [walk, if_neg hd, ho]
  simp only [if_neg hs]

end

end Forest

namespace Registry

/-- expanding walks the forest that is read off, and if nothing stops it takes all its arguments -/
theorem expand_eq_walk (r : Registry) (limit depth : Nat) (wanted : Arity) (args : List Argument) :
    ((r.expand limit depth wanted args).result, (r.expand limit depth wanted args).journal) =
      (r.forest wanted args).walk limit depth ∧
    ∀ {values : List Value}, (r.expand limit depth wanted args).result = .ok values →
      (r.expand limit depth wanted args).used = (r.forest wanted args).preorder.length := by
  fun_induction Registry.expand r limit depth wanted args
  case case1 depth wanted =>
    rw [forest]
    exact ⟨rfl, fun _ => rfl⟩
  case case2 depth wanted arg more hf =>
    rw [forest, if_pos hf]
    exact ⟨rfl, fun _ => rfl⟩
  case case3 depth wanted arg more hf hc ih =>
    obtain ⟨hw, hu⟩ := ih
    rw [forest, if_neg hf, hc]
    constructor
    · rw [Forest.walk_leaf, ← hw]
      rfl
    · intro values h
      obtain ⟨rest, hrest, -⟩ := Expansion.result_of_after h
      rw [Forest.preorder, List.length_cons, ← hu hrest, Expansion.used_after, Nat.add_comm]
  case case4 depth wanted arg more hf c hc hd =>
    rw [forest, if_neg hf, hc]
    constructor
    · exact (Forest.walk_call_of_lt hd arg c _ _).symm
    · intro values h
      cases h
  case case5 depth wanted arg more hf c hc hd inner reply hi ih =>
    obtain ⟨hw, -⟩ := ih
    simp only [inner] at hi ⊢
    rw [hi] at hw
    rw [forest, if_neg hf, hc]
    constructor
    · exact (Forest.walk_call_of_error hd hw.symm arg _).symm
    · intro values h
      cases h
  case case6 depth wanted arg more hf c hc hd inner values hi reply called hs ih =>
    obtain ⟨hw, -⟩ := ih
    simp only [inner, called, reply] at hi hs ⊢
    rw [hi] at hw
    rw [forest, if_neg hf, hc]
    constructor
    · exact (Forest.walk_call_of_stops hd hw.symm hs arg _).symm
    · intro values h
      cases h
  case case7 depth wanted arg more hf c hc hd inner values hi reply called hs ih1 ih2 =>
    obtain ⟨hw1, hu1⟩ := ih1
    obtain ⟨hw2, hu2⟩ := ih2
    simp only [inner, called, reply] at hi hs hw2 hu2 ⊢
    rw [hi] at hw1
    rw [forest, if_neg hf, hc]
    simp only [hu1 hi] at hw2 hu2 ⊢
    constructor
    · rw [Forest.walk_call_of_goes_on hd hw1.symm hs, ← hw2]
      rfl
    · intro values h
      obtain ⟨rest, hrest, -⟩ := Expansion.result_of_after h
      rw [Forest.preorder, List.length_cons, List.length_append, ← hu2 hrest,
        Expansion.used_after]
      omega

theorem Parses.expand_eq_walk {r : Registry} {args : List Argument} {f : Forest}
    (h : r.Parses args f) (limit depth : Nat) :
    ((r.expand limit depth .variadic args).result, (r.expand limit depth .variadic args).journal) =
      f.walk limit depth := by
  rw [h.eq_forest]
  exact (r.expand_eq_walk limit depth .variadic args).1

end Registry

/-! ## lines -/

namespace Interpreter

section
variable {i : Interpreter} {word : String} {c : Command} {tokens : List String} {f : Forest}
  {noted : Journal}

theorem runWords_of_walk_error (hc : i.registry.lookup? word = some c)
    (hf : i.registry.Parses (tokens.map Argument.ofWord) f) {reply : Reply}
    (hw : f.walk i.config.maxDepth 1 = (.error reply, noted)) :
    i.runWords (word :: tokens) = ⟨reply, noted⟩ := by
  have he := hf.expand_eq_walk i.config.maxDepth 1
  rw [hw] at he
  obtain ⟨hr, hj⟩ := Prod.mk.inj he
  rw [runWords_of_error hc hr]
  exact congrArg _ hj

theorem runWords_of_walk_ok (hc : i.registry.lookup? word = some c)
    (hf : i.registry.Parses (tokens.map Argument.ofWord) f) {values : List Value}
    (hw : f.walk i.config.maxDepth 1 = (.ok values, noted)) :
    i.runWords (word :: tokens) =
      ⟨c.run values, noted ++ .ofEvent (.dispatching word values)⟩ := by
  have he := hf.expand_eq_walk i.config.maxDepth 1
  rw [hw] at he
  obtain ⟨hr, hj⟩ := Prod.mk.inj he
  rw [runWords_of_ok hc hr]
  exact congrArg (fun j => LineRun.mk (c.run values) (j ++ _)) hj

end

end Interpreter

end LineScript
