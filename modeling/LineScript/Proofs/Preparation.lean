import LineScript.Proofs.Composition
import LineScript.Proofs.Layout

/-!
# The lines that a run is made of

Three things are asked of a line before it is run: its text without the white space around it, whether
that text begins a comment, and its words.  They agree: a line is kept if its words do something, and
the text that is kept has these words.

* `mem_effectiveFrom_iff`   which lines are kept, and under which number;
* `effectiveLines_eq`       without numbers the lines are trimmed first and then filtered;
* `Interpreter.runLines_prefix`   a run meets these lines in their order, up to one that stops.

`effective_lines_agree` puts these together.
-/

namespace LineScript

/-! ## numbered lines -/

theorem mem_effectiveFrom_iff {first n : Nat} {text : String} {lines : List String} :
    (n, text) ∈ effectiveFrom first lines ↔ ∃ k raw, n = first + k ∧ lines[k]? = some raw ∧
      text = Text.trim raw ∧ isEffective (Text.trim raw) := by
  rw [effectiveFrom, List.mem_filter, List.mem_map]
  constructor
  · rintro ⟨⟨⟨raw, m⟩, hmem, heq⟩, heffective⟩
    obtain ⟨rfl, rfl⟩ := Prod.mk.inj heq
    obtain ⟨hle, hraw⟩ := List.mk_mem_zipIdx_iff_le_and_getElem?_sub.mp hmem
    exact ⟨m - first, raw, by omega, hraw, rfl, heffective⟩
  · rintro ⟨k, raw, rfl, hraw, rfl, heffective⟩
    exact ⟨⟨(raw, first + k), List.mk_add_mem_zipIdx_iff_getElem?.mpr hraw, rfl⟩, heffective⟩

/-- numbers are given before lines are dropped, so they still increase -/
theorem pairwise_effectiveFrom (first : Nat) (lines : List String) :
    (effectiveFrom first lines).Pairwise fun a b => a.1 < b.1 := by
  have hzip : (lines.zipIdx first).Pairwise fun a b => a.2 < b.2 := by
    rw [← List.pairwise_map, List.zipIdx_map_snd]
    exact List.pairwise_lt_range'
  rw [effectiveFrom]
  exact List.Pairwise.filter _ (List.pairwise_map.mpr hzip)

/-! ## words that do something -/

theorem areEffective_iff {words : List String} : areEffective words ↔
    ∃ token, words.head? = some token ∧ ∀ mark ∈ commentMarks, ¬mark.toList <+: token.toList := by
  cases words with
  | nil => simp [areEffective]
  | cons word more => simp [areEffective, isComment]

/-- there is a first word in every line that is kept -/
theorem words_ne_nil_of_mem_effectiveFrom {first : Nat} {lines : List String}
    {numbered : Nat × String} (h : numbered ∈ effectiveFrom first lines) :
    Text.words numbered.2 ≠ [] := by
  obtain ⟨k, raw, -, -, htrim, heffective⟩ := mem_effectiveFrom_iff.mp h
  rw [isEffective_trim] at heffective
  rw [htrim, Text.words_trim]
  intro hnil
  rw [hnil] at heffective
  cases heffective

/-! ## lines without their numbers -/

theorem effectiveLines_eq (lines : List String) :
    effectiveLines lines = (lines.map Text.trim).filter isEffective := by
  have hmap : ∀ first, (effectiveFrom first lines).map Prod.snd =
      (lines.map Text.trim).filter isEffective := by
    induction lines with
    | nil => exact fun first => rfl
    | cons line lines ih =>
      intro first
      rw [effectiveFrom_cons, List.map_append, ih, List.map_cons, List.filter_cons]
      split <;> rfl
  exact hmap 1

/-- what is kept is trimmed and does something, so all of it is kept again -/
theorem effectiveLines_effectiveLines (lines : List String) :
    effectiveLines (effectiveLines lines) = effectiveLines lines := by
  have htrimmed : ∀ text ∈ (lines.map Text.trim).filter isEffective, Text.trim text = id text := by
    intro text h
    obtain ⟨raw, -, rfl⟩ := List.mem_map.mp (List.mem_of_mem_filter h)
    exact Text.trim_trim raw
  rw [effectiveLines_eq, effectiveLines_eq, List.map_congr_left htrimmed, List.map_id,
    List.filter_filter]
  simp only [Bool.and_self]

/-! ## the lines of a run -/

namespace Interpreter

/-- a run is made of the lines that it is given, in order, up to one that stops -/
theorem runLines_prefix (i : Interpreter) (lines : List (Nat × String)) :
    i.runLines lines <+: lines.map fun numbered => (numbered.1, i.runLine numbered.2) := by
  induction lines with
  | nil => exact List.prefix_refl _
  | cons numbered more ih =>
    obtain ⟨n, line⟩ := numbered
    rw [List.map_cons]
    by_cases hs : (i.runLine line).reply.stops
    · rw [runLines_of_stops hs, List.cons_prefix_cons]
      exact ⟨rfl, List.nil_prefix⟩
    · rw [runLines_of_goes_on hs, List.cons_prefix_cons]
      exact ⟨rfl, ih⟩

end Interpreter

/-- **Trimming, comments and words agree line by line.**  What is kept of some lines are, with numbers
that increase from 1, the trimmed texts of those lines that have a first word which begins no comment;
and the words of such a text are those of its line.  Without the numbers nothing changes when this is
done again.  Lines one behind the other are kept as each of them is, the later ones with their numbers
moved on.  So a run meets lines with a first word only. -/
theorem effective_lines_agree (lines : List String) :
    (effectiveFrom 1 lines).Pairwise (fun a b => a.1 < b.1) ∧
    (∀ n text, (n, text) ∈ effectiveFrom 1 lines ↔
      ∃ k raw, n = k + 1 ∧ lines[k]? = some raw ∧ text = Text.trim raw ∧
        Text.words text = Text.words raw ∧
        ∃ token, (Text.words raw).head? = some token ∧
          ∀ mark ∈ ["//", "/*", "--"], ¬mark.toList <+: token.toList) ∧
    effectiveLines lines = (effectiveFrom 1 lines).map Prod.snd ∧
    effectiveLines (effectiveLines lines) = effectiveLines lines ∧
    (∀ more, effectiveFrom 1 (lines ++ more) = effectiveFrom 1 lines ++
      (effectiveFrom 1 more).map fun numbered => (lines.length + numbered.1, numbered.2)) ∧
    ∀ (i : Interpreter) (p : Program),
      (i.run p).lines <+: p.effective.map (fun numbered => (numbered.1, i.runLine numbered.2)) ∧
      ∀ numbered ∈ p.effective, Text.words numbered.2 ≠ [] := by
  refine ⟨pairwise_effectiveFrom 1 lines, fun n text => ?_, rfl, effectiveLines_effectiveLines lines,
    effective_append lines, fun i p => ⟨i.runLines_prefix p.effective, fun numbered h => ?_⟩⟩
  · rw [mem_effectiveFrom_iff]
    constructor
    · rintro ⟨k, raw, rfl, hraw, rfl, heffective⟩
      rw [isEffective_trim] at heffective
      exact ⟨k, raw, Nat.add_comm 1 k, hraw, rfl, Text.words_trim raw, areEffective_iff.mp heffective⟩
    · rintro ⟨k, raw, rfl, hraw, rfl, -, htoken⟩
      refine ⟨k, raw, Nat.add_comm k 1, hraw, rfl, ?_⟩
      rw [isEffective_trim]
      exact areEffective_iff.mpr htoken
  · exact words_ne_nil_of_mem_effectiveFrom h

/-- one slash or a minus begins no comment, and neither does a mark behind the first word -/
example : effectiveFrom 1 ["\u3000", " -- note", "\tprint a // b\u00a0", "/ 2", "\u2028/*x", "-1"] =
    [(3, "print a // b"), (4, "/ 2"), (6, "-1")] := by
  decide +kernel

end LineScript
