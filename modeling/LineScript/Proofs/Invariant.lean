import LineScript.Expansion

/-!
# What expanding keeps

* `Expansion.Keeps`        something holds of the values, of the entries and of the reply that stopped;
* `Registry.expand_keeps`  it holds of every expansion if every call keeps it.
-/

namespace LineScript

section
variable {V : Value → Prop} {P : Entry → Prop} {Q : Reply → Prop}

/-- `V` holds of the values, `P` of the entries that were noted, and `Q` of the reply that stopped -/
structure Expansion.Keeps (V : Value → Prop) (P : Entry → Prop) (Q : Reply → Prop)
    (e : Expansion) : Prop where
  values : ∀ {vs}, e.result = .ok vs → ∀ v ∈ vs, V v
  entries : ∀ entry ∈ e.journal.log, P entry
  reply : ∀ {reply}, e.result = .error reply → Q reply

/-- a call keeps what holds of its operands: of its value and its entries if it goes on, and of its
reply if it stops -/
structure Command.Keeps (V : Value → Prop) (P : Entry → Prop) (Q : Reply → Prop)
    (c : Command) : Prop where
  value : ∀ {vs}, (∀ v ∈ vs, V v) → ¬(c.run vs).stops → V (c.run vs).outcome.valueD
  entries : ∀ {vs}, (∀ v ∈ vs, V v) → ¬(c.run vs).stops → ∀ e ∈ (c.run vs).outcome.entries, P e
  reply : ∀ {vs}, (∀ v ∈ vs, V v) → (c.run vs).stops → Q (c.run vs)

theorem Expansion.keeps_nothing : Expansion.nothing.Keeps V P Q where
  values h := by
    cases h
    simp
  entries := by simp [nothing, Journal.empty]
  reply h := by cases h

theorem Expansion.keeps_error {reply : Reply} (hq : Q reply) {j : Journal}
    (hj : ∀ entry ∈ j.log, P entry) (used : Nat) :
    (Expansion.mk used (.error reply) j).Keeps V P Q where
  values h := by cases h
  entries := hj
  reply h := by
    cases h
    exact hq

theorem Expansion.Keeps.after {e : Expansion} (h : e.Keeps V P Q) {v : Value} (hv : V v)
    {j : Journal} (hj : ∀ entry ∈ j.log, P entry) (used : Nat) :
    (Expansion.after used v j e).Keeps V P Q where
  values hvs w hw := by
    obtain ⟨rest, hrest, rfl⟩ := Expansion.result_of_after hvs
    rcases List.mem_cons.mp hw with rfl | hw
    · exact hv
    · exact h.values hrest w hw
  entries entry he := by
    rcases List.mem_append.mp he with he | he
    · exact hj entry he
    · exact h.entries entry he
  reply {reply} hr := by
    cases he : e.result with
    | error other =>
      simp only [Expansion.after, he] at hr
      cases hr
      exact h.reply he
    | ok vs =>
      simp only [Expansion.after, he] at hr
      cases hr

/-- what holds of plain arguments, of every call and of a call that stands too deep holds of an
expansion -/
theorem Registry.expand_keeps {r : Registry} {limit : Nat}
    (hr : ∀ {n c}, r.find? n = some c → c.Keeps V P Q)
    (hdepth : Q (.failed (.depthExceeded limit))) (depth : Nat) (wanted : Arity)
    {args : List Argument} (hargs : ∀ arg ∈ args, V arg.value) :
    (r.expand limit depth wanted args).Keeps V P Q := by
  fun_induction expand r limit depth wanted args
  case case1 depth wanted => exact Expansion.keeps_nothing
  case case2 depth wanted arg more hf => exact Expansion.keeps_nothing
  case case3 depth wanted arg more hf hc ih =>
    have hmore := ih fun a ha => hargs a (List.mem_cons_of_mem _ ha)
    exact hmore.after (hargs arg List.mem_cons_self) (by simp [Journal.empty]) 1
  case case4 depth wanted arg more hf c hc hd =>
    exact Expansion.keeps_error hdepth (by simp [Journal.empty]) 1
  case case5 depth wanted arg more hf c hc hd inner reply hi ih =>
    have hin := ih fun a ha => hargs a (List.mem_cons_of_mem _ ha)
    exact Expansion.keeps_error (hin.reply hi) hin.entries _
  case case6 depth wanted arg more hf c hc hd inner values hi reply called hs ih =>
    have hin := ih fun a ha => hargs a (List.mem_cons_of_mem _ ha)
    have hcall := hr (find?_of_commandOf? hc)
    refine Expansion.keeps_error (hcall.reply (hin.values hi) hs) ?_ _
    simpa [called, Journal.append_log, Journal.ofEvent] using hin.entries
  case case7 depth wanted arg more hf c hc hd inner values hi reply called hs ih1 ih2 =>
    have hin := ih1 fun a ha => hargs a (List.mem_cons_of_mem _ ha)
    have hmore := ih2 fun a ha => hargs a (List.mem_cons_of_mem _ (List.mem_of_mem_drop ha))
    have hcall := hr (find?_of_commandOf? hc)
    refine hmore.after (hcall.value (hin.values hi) hs) (fun entry he => ?_) _
    rcases List.mem_append.mp he with he | he
    · exact hin.entries entry (by simpa [called, Journal.append_log, Journal.ofEvent] using he)
    · exact hcall.entries (hin.values hi) hs entry he

end

end LineScript
