import LineScript.Proofs.Room
import LineScript.Proofs.Threading

/-!
# Parsing by arity, evaluating depth first

The arguments of a line have one forest, and expanding them is walking it, whatever the journal held
before (`Registry.expandWithin_walks_unique_forest`).  There is an expansion wherever there is room for
what the walk comes to.
-/

namespace LineScript

namespace Registry

/-- **Arguments are parsed by arity and then evaluated depth first.**  They have exactly one forest:
its preorder gives them back, its leaves are the arguments that call no command, and each call stands
above as many trees as its arity asks for, or fewer at the end.  Expanding them gives what walking that
forest gives, and adds what walking it notes to whatever journal is there.  They are expanded exactly if
there is room for every call that the walk comes to and no handler lacks an operand where it ends. -/
theorem expandWithin_walks_unique_forest (r : Registry) (room limit : Nat) (args : List Argument) :
    (∃! f, r.Parses args f) ∧
    (∀ s, r.commandOf? (.quoted s) = none) ∧
    (∀ v, (∀ s, v ≠ .text s) → r.commandOf? (.bound v) = none) ∧
    ∀ f, r.Parses args f →
      ((∃ e, r.expandWithin room limit 1 .variadic args = some e) ↔
        f.Fits room limit 1 ∧ f.Supplied limit 1) ∧
      (∀ e, r.expandWithin room limit 1 .variadic args = some e →
        (e.result, e.journal) = f.walk limit 1) ∧
      ∀ j, ((∃ e, r.expandOnWithin room limit 1 .variadic j args = some e) ↔
          ∃ e, r.expandWithin room limit 1 .variadic args = some e) ∧
        ∀ e, r.expandOnWithin room limit 1 .variadic j args = some e →
          e.result = (f.walk limit 1).1 ∧ e.journal = j ++ (f.walk limit 1).2 := by
  refine ⟨r.existsUnique_parses args, r.commandOf?_quoted, fun v => r.commandOf?_bound, ?_⟩
  intro f hf
  have hwalk : ∀ e, r.expandWithin room limit 1 .variadic args = some e →
      (e.result, e.journal) = f.walk limit 1 := by
    intro e he
    rw [expandWithin_eq he]
    exact hf.expand_eq_walk limit 1
  refine ⟨?_, hwalk, fun j => ⟨?_, fun e he => ?_⟩⟩
  · rw [← Option.isSome_iff_exists, isSome_expandWithin_iff, ← hf.eq_forest]
  · rw [expandOnWithin_eq, ← Option.isSome_iff_exists, ← Option.isSome_iff_exists, Option.isSome_map]
  · rw [expandOnWithin_eq] at he
    obtain ⟨alone, halone, rfl⟩ := Option.map_eq_some_iff.mp he
    rw [← hwalk alone halone]
    exact ⟨rfl, rfl⟩

/-- in `add warn w print p` the warning stands above all that is left and the sum above the warning
alone, so the sum has one operand too few; the two entries below it are there by then -/
theorem expandWithin_walks_short_sum :
    let args := ["add", "warn", "w", "print", "p"].map Argument.ofWord
    let printed := Forest.call (.word "print") CommandName.print.builtin (.leaf (.word "p") .nil) .nil
    let warned := Forest.call (.word "warn") CommandName.warn.builtin (.leaf (.word "w") printed) .nil
    let f := Forest.call (.word "add") CommandName.add.builtin warned .nil
    let earlier : Entry := ⟨.info, "earlier"⟩
    Registry.builtin.Parses args f ∧ f.Fits 2 64 1 ∧ f.Supplied 64 1 ∧
    ∃ e, Registry.builtin.expandOnWithin 2 64 1 .variadic (.ofLog [earlier]) args = some e ∧
      e.result = .error (.failed (.arityMismatch .add 2 1)) ∧
      e.journal.log = [earlier, ⟨.info, "p"⟩, ⟨.warning, "w true"⟩] := by
  intro args printed warned f earlier
  have hprinted : printed.Shaped Registry.builtin [] :=
    ⟨Registry.builtin.commandOf?_word .print, rfl, ⟨rfl, trivial⟩, trivial⟩
  have hwarned : warned.Shaped Registry.builtin [] :=
    ⟨Registry.builtin.commandOf?_word .warn, rfl, ⟨rfl, hprinted⟩, trivial⟩
  have hf : Registry.builtin.Parses args f :=
    ⟨by decide +kernel, Registry.builtin.commandOf?_word .add, Or.inr ⟨by decide, rfl⟩, hwarned,
      trivial⟩
  have hfits : f.Fits 2 64 1 := hf.2.fits (fits_builtin (Nat.le_refl 2)) 64 1
  have hsupplied : f.Supplied 64 1 := hf.2.supplied builtin_ofBuiltins 64 1
  obtain ⟨hanswered, -, hon⟩ :=
    (Registry.builtin.expandWithin_walks_unique_forest 2 64 args).2.2.2 f hf
  obtain ⟨hsame, hwalk⟩ := hon (.ofLog [earlier])
  obtain ⟨e, he⟩ := hsame.mpr (hanswered.mpr ⟨hfits, hsupplied⟩)
  obtain ⟨hresult, hjournal⟩ := hwalk e he
  refine ⟨hf, hfits, hsupplied, e, he, ?_, ?_⟩
  · rw [hresult]
    decide +kernel
  · rw [hjournal]
    decide +kernel

/-- a sum that takes more operands than there can be room for: walking the forest finds that all but two
are wanting, but there is no expansion -/
theorem expandWithin_none_of_parsed_sum :
    let count := 0xFFFFFFFFFFFFFFFF
    let sum : Command := ⟨.add, .fixed count, CommandName.add.handler⟩
    let r := Registry.builtin.register sum
    let args := ["add", "1", "2"].map Argument.ofWord
    let f := Forest.call (.word "add") sum (.leaf (.word "1") (.leaf (.word "2") .nil)) .nil
    r.Parses args f ∧
    f.walk 64 1 = (.error (.failed (.arityMismatch .add count 2)),
      .ofEvent (.expanding .add 1 [.number (.ofBits 0x3FF0000000000000),
        .number (.ofBits 0x4000000000000000)])) ∧
    r.expandWithin mostRoom 64 1 .variadic args = none ∧
    ∀ j, r.expandOnWithin mostRoom 64 1 .variadic j args = none := by
  intro count sum r args f
  have hnone : r.expandWithin mostRoom 64 1 .variadic args = none := by
    rw [← Option.isNone_iff_eq_none]
    decide +kernel
  refine ⟨?_, ?_, hnone, fun j => ?_⟩
  · exact ⟨by decide +kernel, r.commandOf?_word .add, Or.inr ⟨by decide +kernel, rfl⟩,
      ⟨rfl, rfl, trivial⟩, trivial⟩
  · decide +kernel
  · rw [expandOnWithin_eq, hnone, Option.map_none]

end Registry

end LineScript
