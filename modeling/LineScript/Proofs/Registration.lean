import Mathlib.Data.List.Dedup
import Mathlib.Data.List.Perm.Basic
import LineScript.Registry

/-!
# The history of a registry

A registry answers as the list of all commands that were ever registered in it would: under a word it
has the last of those whose name is the word.

* `Registry.Request`    what can be asked of a registry, and `Registry.answers` what it says to it;
* `History.last?`       the last command of a history that a word calls;
* `History.answers`     what a history says to the same requests;
* `Registry.Holds`      a registry that has the last command under each name;
* `Registry.answers_eq` such a registry and its history answer alike, whatever is asked.

`Registry.last_registration_counts` puts these together.
-/

namespace LineScript

namespace CommandName

theorem ofWord?_eq_none_iff {word : String} :
    ofWord? word = none ↔ word ∉ all.map CommandName.word := by
  rw [ofWord?, List.find?_eq_none, List.mem_map, not_exists]
  refine forall_congr' fun n => ?_
  rw [not_and, beq_iff_eq]

end CommandName

/-! ## requests -/

/-- what can be asked of a registry; a word that is no name cannot be got -/
inductive Registry.Request where
  | register (c : Command)
  | lookup (word : String)
  | get (word : String)
  | invoke (word : String) (values : List Value)
  | size
  | isEmpty

inductive Registry.Answer where
  | registered
  | found (c? : Option Command)
  | failed (f : Failure)
  | ran (o? : Option Outcome)
  | size (n : Nat)
  | isEmpty (b : Bool)

/-- the command that a request registers, if it does -/
def Registry.Request.command? : Request → Option Command
  | .register c => some c
  | _ => none

namespace Registry

def answer (r : Registry) : Request → Answer
  | .register _ => .registered
  | .lookup word => .found (r.lookup? word)
  | .get word =>
    match CommandName.ofWord? word with
    | some n => .found (r.find? n)
    | none => .failed (.unknownCommand word)
  | .invoke word values => .ran ((r.lookup? word).map (·.invoke values))
  | .size => .size r.size
  | .isEmpty => .isEmpty r.isEmpty

/-- what is left of a registry after a request: nothing but a registration changes it -/
def serve (r : Registry) : Request → Registry
  | .register c => r.register c
  | _ => r

def serveAll (r : Registry) (requests : List Request) : Registry :=
  requests.foldl serve r

def answers (r : Registry) : List Request → List Answer
  | [] => []
  | request :: requests => r.answer request :: (r.serve request).answers requests

end Registry

/-! ## histories -/

/-- all commands that were registered, the last at the end -/
abbrev History := List Command

namespace History
open Registry (Request Answer)

def last? (h : History) (word : String) : Option Command :=
  h.reverse.find? fun c => c.name.word == word

/-- the names that were registered, each once -/
def names (h : History) : List CommandName :=
  (h.map Command.name).dedup

def answer (h : History) : Request → Answer
  | .register _ => .registered
  | .lookup word => .found (h.last? word)
  | .get word =>
    if word ∈ CommandName.all.map CommandName.word then .found (h.last? word)
    else .failed (.unknownCommand word)
  | .invoke word values => .ran ((h.last? word).map (·.invoke values))
  | .size => .size h.names.length
  | .isEmpty => .isEmpty h.isEmpty

def serve (h : History) (request : Request) : History :=
  h ++ request.command?.toList

def answers (h : History) : List Request → List Answer
  | [] => []
  | request :: requests => h.answer request :: (h.serve request).answers requests

/-- a history ends with what the requests registered -/
theorem foldl_serve (h : History) (requests : List Request) :
    requests.foldl serve h = h ++ requests.filterMap Request.command? := by
  induction requests generalizing h with
  | nil => exact (List.append_nil h).symm
  | cons request requests ih =>
    rw [List.foldl_cons, ih, serve, List.append_assoc]
    cases hc : request.command? <;> simp [hc]

theorem last?_eq_none {h : History} {word : String} (hno : ∀ n : CommandName, n.word ≠ word) :
    h.last? word = none := by
  rw [last?, List.find?_eq_none]
  intro c _ hc
  exact hno c.name (eq_of_beq hc)

end History

/-! ## a registry and its history -/

namespace Registry

/-- under each name is the last command of that name -/
def Holds (r : Registry) (h : History) : Prop :=
  ∀ n : CommandName, r.find? n = h.last? n.word

theorem holds_empty : empty.Holds [] := fun _ => rfl

theorem Holds.register {r : Registry} {h : History} (hr : r.Holds h) (c : Command) :
    (r.register c).Holds (h ++ [c]) := by
  intro n
  rw [find?_register, History.last?, List.reverse_append, List.reverse_singleton,
    List.singleton_append, List.find?_cons]
  by_cases hn : n = c.name
  · rw [if_pos hn, hn, beq_self_eq_true]
  · have hword : (c.name.word == n.word) = false :=
      beq_eq_false_iff_ne.mpr fun heq => hn (CommandName.word_injective heq).symm
    rw [if_neg hn, hword]
    exact hr n

theorem Holds.serve {r : Registry} {h : History} (hr : r.Holds h) (request : Request) :
    (r.serve request).Holds (h.serve request) := by
  cases request with
  | register c => exact hr.register c
  | lookup | get | invoke | size | isEmpty =>
    rw [History.serve, show Request.command? _ = none from rfl, Option.toList_none, List.append_nil]
    exact hr

theorem Holds.serveAll {r : Registry} {h : History} (hr : r.Holds h) (requests : List Request) :
    (r.serveAll requests).Holds (requests.foldl History.serve h) := by
  induction requests generalizing r h with
  | nil => exact hr
  | cons request requests ih => exact ih (hr.serve request)

/-- the commands of a list are requests to register them -/
theorem holds_ofList (cs : List Command) : (ofList cs).Holds cs := by
  have hserved := holds_empty.serveAll (cs.map .register)
  have hregistered : (cs.map Request.register).filterMap Request.command? = cs := by
    rw [List.filterMap_map]
    exact List.filterMap_some
  rw [History.foldl_serve, List.nil_append, hregistered, serveAll, List.foldl_map] at hserved
  exact hserved

/-- the registry of the built-in commands comes from registering each of them -/
theorem builtin_eq_ofList : builtin = ofList (CommandName.all.map CommandName.builtin) := by
  apply ext
  intro n
  rw [holds_ofList]
  cases n <;> rfl

section
variable {r : Registry} {h : History} (hr : r.Holds h)
include hr

theorem Holds.lookup?_eq (word : String) : r.lookup? word = h.last? word := by
  rw [lookup?]
  cases hn : CommandName.ofWord? word with
  | some n =>
    rw [Option.bind_some, hr n, CommandName.word_of_ofWord? hn]
  | none =>
    rw [Option.bind_none, History.last?_eq_none]
    rintro n rfl
    rw [CommandName.ofWord?_word] at hn
    cases hn

theorem Holds.isSome_iff (n : CommandName) : (r.find? n).isSome ↔ n ∈ h.names := by
  rw [hr n, History.last?, List.find?_isSome, History.names, List.mem_dedup, List.mem_map]
  refine exists_congr fun c => ?_
  rw [List.mem_reverse, beq_iff_eq]
  exact and_congr_right fun _ => ⟨CommandName.word_injective, fun heq => heq ▸ rfl⟩

theorem Holds.size_eq : r.size = h.names.length := by
  apply List.Perm.length_eq
  apply (List.perm_ext_iff_of_nodup (CommandName.all_nodup.filter _) (List.nodup_dedup _)).mpr
  intro n
  rw [List.mem_filter, hr.isSome_iff]
  exact and_iff_right n.mem_all

theorem Holds.isEmpty_eq : r.isEmpty = h.isEmpty := by
  rw [isEmpty, hr.size_eq, History.names]
  cases h with
  | nil => rfl
  | cons c h => simp

theorem Holds.answer_eq (request : Request) : r.answer request = h.answer request := by
  cases request with
  | register c => rfl
  | lookup word => rw [answer, History.answer, hr.lookup?_eq]
  | get word =>
    rw [answer, History.answer, ← hr.lookup?_eq, lookup?]
    cases hn : CommandName.ofWord? word with
    | some n =>
      have hmem : word ∈ CommandName.all.map CommandName.word :=
        List.mem_map.mpr ⟨n, n.mem_all, CommandName.word_of_ofWord? hn⟩
      rw [if_pos hmem]
      rfl
    | none => rw [if_neg (CommandName.ofWord?_eq_none_iff.mp hn)]
  | invoke word values => rw [answer, History.answer, hr.lookup?_eq]
  | size => rw [answer, History.answer, hr.size_eq]
  | isEmpty => rw [answer, History.answer, hr.isEmpty_eq]

end

theorem answers_eq {r : Registry} {h : History} (hr : r.Holds h) (requests : List Request) :
    r.answers requests = h.answers requests := by
  induction requests generalizing r h with
  | nil => rfl
  | cons request requests ih =>
    rw [answers, History.answers, hr.answer_eq, ih (hr.serve request)]

theorem size_le (r : Registry) : r.size ≤ 11 :=
  List.length_filter_le _ CommandName.all

theorem register_comm (r : Registry) {c d : Command} (h : c.name ≠ d.name) :
    (r.register c).register d = (r.register d).register c := by
  apply ext
  intro n
  simp only [find?_register]
  by_cases hc : n = c.name
  · rw [if_pos hc, if_pos hc, if_neg fun hd => h (hc.symm.trans hd)]
  · rw [if_neg hc, if_neg hc]

/-- of two commands of one name the second is registered -/
theorem register_register (r : Registry) {c d : Command} (h : c.name = d.name) :
    (r.register c).register d = r.register d := by
  apply ext
  intro n
  simp only [find?_register, h]
  by_cases hd : n = d.name
  · rw [if_pos hd, if_pos hd]
  · rw [if_neg hd, if_neg hd, if_neg hd]

/-- **The last registration under a name counts.**  A registry starts with some commands registered in
it, none or all of the built-in ones among other choices.  Whatever is then registered, looked up, got
and invoked, each answer is the one that the commands registered so far give: under a word it is the
last of those whose name is the word.  So every command is under its own name, as many names are taken
as were registered, and these are eleven at most.  Commands of different names are registered in either
order, and a command is registered once or twice, with the same result. -/
theorem last_registration_counts :
    empty = ofList [] ∧ builtin = ofList (CommandName.all.map CommandName.builtin) ∧
    ∀ (first : List Command) (requests : List Request),
      let start := ofList first
      let r := start.serveAll requests
      let h : History := first ++ requests.filterMap Request.command?
      start.answers requests = History.answers first requests ∧
      (∀ n c, r.find? n = some c → c.name = n) ∧
      (∀ word c, r.lookup? word = some c → c.name.word = word) ∧
      (∀ word, r.lookup? word = h.last? word) ∧
      (∀ word, (CommandName.ofWord? word).bind r.find? = h.last? word) ∧
      r.size = h.names.length ∧ r.size ≤ 11 ∧ (r.isEmpty ↔ r.size = 0) ∧
      (∀ c d : Command, c.name ≠ d.name →
        (r.register c).register d = (r.register d).register c) ∧
      ∀ c, (r.register c).register c = r.register c := by
  refine ⟨rfl, builtin_eq_ofList, fun first requests => ?_⟩
  intro start r h
  have hstart : start.Holds first := holds_ofList first
  have hr : r.Holds h := by
    have hserved := hstart.serveAll requests
    rwa [History.foldl_serve] at hserved
  refine ⟨answers_eq hstart requests, fun n c => r.name_of_find, fun word c hc => ?_,
    hr.lookup?_eq, hr.lookup?_eq, hr.size_eq, r.size_le, beq_iff_eq,
    fun c d => r.register_comm, fun c => r.register_register rfl⟩
  exact (find?_of_lookup? hc).1.symm

/-- a print that is registered as the sum answers to the word of the sum, to no word with a capital or a
space in it, and the number of names stays the same -/
theorem last_registration_counts_replaced :
    let sum : Command := ⟨.add, .variadic, CommandName.print.handler⟩
    let difference : Command := ⟨.sub, .fixed 3, CommandName.mul.handler⟩
    let requests : List Request := [.invoke "add" [.text "a"], .register sum,
      .invoke "add" [.text "a"], .get "Add", .lookup "add ", .get "add"]
    let r := builtin.serveAll requests
    builtin.answers requests =
      [.ran (some (.failure (.arityMismatch .add 2 1))), .registered,
        .ran (some (sum.invoke [.text "a"])), .failed (.unknownCommand "Add"), .found none,
        .found (some sum)] ∧
    sum.invoke [.text "a"] = .log .info "a" ∧ r.size = 11 ∧
    r.lookup? "add" = some sum ∧ sum.name.word = "add" ∧ sum.name ≠ difference.name ∧
    (r.register sum).register difference = (r.register difference).register sum := by
  intro sum difference requests r
  obtain ⟨-, hbuiltin, hall⟩ := last_registration_counts
  obtain ⟨hanswers, -, hword, hlast, -, -, -, -, hcomm, -⟩ :=
    hall (CommandName.all.map CommandName.builtin) requests
  rw [← hbuiltin] at hanswers hword hlast hcomm
  have hsum : r.lookup? "add" = some sum := (hlast "add").trans rfl
  have hne : sum.name ≠ difference.name := by decide
  exact ⟨hanswers.trans rfl, by decide +kernel, by decide +kernel, hsum, hword "add" sum hsum, hne,
    hcomm sum difference hne⟩

end Registry

end LineScript
