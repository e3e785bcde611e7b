import LineScript.Argument
import LineScript.Proofs.Builtins
import LineScript.Text.Split

/-!
# White space in values and messages

A word of a line holds no white space, and no command puts any into a value.  A message is made of
such texts with spaces between, so the only white space that it can hold is the space of ASCII.

* `Text.Solid`          a text without white space;
* `Text.Spaced`         a text without white space but the space of ASCII;
* `Value.Solid`         a value whose display is solid.

Words are solid (`Text.solid_of_mem_words`), and so are the numbers (`Number.solid_text`), the values
of arguments (`Argument.solid_value`) and those of the built-in handlers (`CommandName.solid_handler`).
-/

namespace LineScript

namespace Text

/-! ## texts -/

def Solid (s : String) : Prop := ∀ c ∈ s.toList, isBlank c = false

def Spaced (s : String) : Prop := ∀ c ∈ s.toList, isBlank c → c = ' '

instance (s : String) : Decidable (Solid s) :=
  decidable_of_iff (s.toList.all fun c => !isBlank c) (by simp [Solid])

instance (s : String) : Decidable (Spaced s) :=
  decidable_of_iff (s.toList.all fun c => !isBlank c || c == ' ')
    (by simp [Spaced, Decidable.imp_iff_not_or])

theorem Solid.spaced {s : String} (h : Solid s) : Spaced s := by
  intro c hc hb
  rw [h c hc] at hb
  cases hb

theorem Solid.append {s t : String} (hs : Solid s) (ht : Solid t) : Solid (s ++ t) := by
  unfold Solid
  rw [String.toList_append]
  exact List.forall_mem_append.mpr ⟨hs, ht⟩

theorem Spaced.append {s t : String} (hs : Spaced s) (ht : Spaced t) : Spaced (s ++ t) := by
  unfold Spaced
  rw [String.toList_append]
  exact List.forall_mem_append.mpr ⟨hs, ht⟩

theorem solid_ofList {cs : List Char} (h : ∀ c ∈ cs, isBlank c = false) :
    Solid (String.ofList cs) := by
  unfold Solid
  rw [String.toList_ofList]
  exact h

/-- nothing of a solid text is a space -/
theorem Solid.space_not_mem {s : String} (h : Solid s) : ' ' ∉ s.toList := by
  intro hmem
  exact absurd (h ' ' hmem) (by decide)

/-- a line feed is white space and no space -/
theorem Spaced.lineFeed_not_mem {s : String} (h : Spaced s) : '\n' ∉ s.toList := by
  intro hmem
  exact absurd (h '\n' hmem (by decide)) (by decide)

/-- the printed characters of ASCII are no white space -/
theorem isBlank_of_printed {c : Char} (h : 0x20 < c.toNat) (h' : c.toNat < 0x7F) :
    isBlank c = false := by
  simp only [isBlank, Ranges.has, blankRanges, List.any_eq_false, List.mem_cons, List.not_mem_nil,
    or_false, Bool.and_eq_true, decide_eq_true_eq]
  rintro ⟨first, last⟩ hrange
  simp only [Prod.mk.injEq] at hrange
  dsimp only
  omega

theorem isBlank_of_isDigit {c : Char} (h : c.isDigit) : isBlank c = false := by
  have hrange : 48 ≤ c.toNat ∧ c.toNat ≤ 57 := by
    simpa [Char.isDigit, UInt32.le_iff_toNat_le] using h
  exact isBlank_of_printed (by omega) (by omega)

/-! ## words -/

theorem not_of_mem_splitOnP {α : Type} {p : α → Bool} {cs w : List α} (h : w ∈ cs.splitOnP p) :
    ∀ c ∈ w, p c = false := by
  induction cs generalizing w with
  | nil =>
    rw [List.splitOnP_nil, List.mem_singleton] at h
    rw [h]
    simp
  | cons d cs ih =>
    rw [List.splitOnP_cons_eq_if_modifyHead] at h
    split at h
    · rcases List.mem_cons.mp h with h | h
      · rw [h]
        simp
      · exact ih h
    · rename_i hd
      cases hs : cs.splitOnP p with
      | nil => exact absurd hs (List.splitOnP_ne_nil p cs)
      | cons first others =>
        rw [hs, List.modifyHead_cons] at h
        rw [hs] at ih
        rcases List.mem_cons.mp h with h | h
        · rw [h]
          exact List.forall_mem_cons.mpr
            ⟨Bool.eq_false_iff.mpr hd, ih List.mem_cons_self⟩
        · exact ih (List.mem_cons_of_mem _ h)

theorem solid_of_mem_words {s w : String} (h : w ∈ words s) : Solid w := by
  obtain ⟨cs, hcs, rfl⟩ := List.mem_map.mp h
  exact solid_ofList (not_of_mem_splitOnP (List.mem_filter.mp hcs).1)

end Text

/-! ## numbers -/

theorem isDigit_of_mem_toDigits {n : Nat} {c : Char} (h : c ∈ Nat.toDigits 10 n) : c.isDigit :=
  Nat.isDigit_of_mem_toDigits (by decide) (Nat.le_refl _) h

theorem isBlank_of_mem_toDigits {n : Nat} {c : Char} (h : c ∈ Nat.toDigits 10 n) :
    Text.isBlank c = false :=
  Text.isBlank_of_isDigit (isDigit_of_mem_toDigits h)

theorem solid_toString (n : Nat) : Text.Solid (toString n) := by
  intro c hc
  rw [Nat.toString_eq_ofList_toDigits, String.toList_ofList] at hc
  exact isBlank_of_mem_toDigits hc

theorem isDigit_of_mem_fractionDigits {n : Nat} {c : Char} (h : c ∈ fractionDigits n) :
    c.isDigit := by
  unfold fractionDigits dropZeroEnd at h
  rw [List.mem_reverse] at h
  have hall := (List.dropWhile_sublist _).mem h
  rw [List.mem_reverse, List.mem_append] at hall
  rcases hall with hzero | hdigit
  · rw [List.eq_of_mem_replicate hzero]
    decide
  · exact isDigit_of_mem_toDigits hdigit

theorem isBlank_of_mem_positional {n : Nat} {c : Char} (h : c ∈ positional n) :
    Text.isBlank c = false := by
  unfold positional at h
  rcases List.mem_append.mp h with h | h
  · exact isBlank_of_mem_toDigits h
  · split at h
    · cases h
    · rcases List.mem_cons.mp h with h | h
      · rw [h]
        decide
      · exact Text.isBlank_of_isDigit (isDigit_of_mem_fractionDigits h)

theorem Number.solid_text (n : Number) : Text.Solid n.text := by
  cases n with
  | nan => decide
  | infinite negative => cases negative <;> decide
  | finite negative rank =>
    apply Text.solid_ofList
    intro c hc
    unfold finiteText at hc
    rcases List.mem_append.mp hc with h | h
    · split at h
      · rw [List.mem_singleton.mp h]
        decide
      · cases h
    · exact isBlank_of_mem_positional h

/-! ## values -/

namespace Value

def Solid (v : Value) : Prop := Text.Solid v.display

theorem solid_number (n : Number) : (number n).Solid := n.solid_text

theorem solid_bool (b : Bool) : (bool b).Solid := by
  cases b with
  | false => exact (by decide : Text.Solid "false")
  | true => exact (by decide : Text.Solid "true")

theorem solid_ofLiteral {word : String} (h : Text.Solid word) : (ofLiteral word).Solid := by
  unfold ofLiteral
  split
  · exact solid_bool true
  split
  · exact solid_bool false
  split
  · exact solid_number _
  · exact h

end Value

theorem Argument.solid_value {word : String} (h : Text.Solid word) :
    (Argument.ofWord word).value.Solid := by
  unfold Argument.ofWord
  split
  · rename_i v hv
    unfold binding? at hv
    split at hv
    · cases hv
      exact (by decide : Text.Solid version)
    split at hv
    · cases hv
      exact (by decide : Text.Solid host)
    · cases hv
  · split
    · rename_i cs hcs
      apply Text.solid_ofList
      intro c hc
      apply h c
      unfold unquote? at hcs
      split at hcs
      · rename_i inner hinner
        split at hcs
        · cases hcs
          rw [hinner]
          exact List.mem_cons_of_mem _ ((List.dropLast_sublist _).mem hc)
        · cases hcs
      · cases hcs
    · exact Value.solid_ofLiteral h

/-! ## calls -/

theorem solid_sum {a b : Value} (ha : a.Solid) (hb : b.Solid) : (sum a b).Solid := by
  unfold sum
  split
  · exact Value.solid_number _
  · exact Text.Solid.append ha hb

/-- what a built-in handler gives to the command around is solid if its operands are -/
theorem CommandName.solid_handler (n : CommandName) {values : List Value}
    (h : ∀ v ∈ values, v.Solid) : (n.handler values).outcome.valueD.Solid := by
  cases n with
  | print | warn | error | stop => exact Value.solid_bool true
  | add =>
    match values with
    | [] => exact Value.solid_bool true
    | [a] => exact Value.solid_bool true
    | a :: b :: rest =>
      exact solid_sum (h a List.mem_cons_self) (h b (List.mem_cons_of_mem _ List.mem_cons_self))
  | sub | mul | pow =>
    match values with
    | [] => exact Value.solid_bool true
    | [a] => exact Value.solid_bool true
    | a :: b :: rest => exact Value.solid_number _
  | div =>
    match values with
    | [] => exact Value.solid_bool true
    | [a] => exact Value.solid_bool true
    | a :: b :: rest =>
      show (quotient a b).outcome.valueD.Solid
      unfold quotient
      split
      · exact Value.solid_bool true
      · exact Value.solid_number _
  | equals =>
    match values with
    | [] => exact Value.solid_bool true
    | [a] => exact Value.solid_bool true
    | a :: b :: rest => exact Value.solid_bool _
  | not =>
    match values with
    | [] => exact Value.solid_bool true
    | a :: rest => exact Value.solid_bool _

theorem Command.RunsBuiltin.solid_run {c : Command} (hc : c.RunsBuiltin) {values : List Value}
    (h : ∀ v ∈ values, v.Solid) : (c.run values).outcome.valueD.Solid := by
  obtain ⟨n, hn⟩ := hc
  rcases c.run_cases values with ⟨-, hrun⟩ | ⟨count, -, -, hrun⟩
  · rw [hrun, hn]
    exact n.solid_handler h
  · rw [hrun]
    exact Value.solid_bool true

/-! ## messages -/

theorem Text.Spaced.intercalate {texts : List String} (h : ∀ s ∈ texts, Spaced s) :
    Spaced (" ".intercalate texts) := by
  induction texts with
  | nil => exact (by decide : Spaced "")
  | cons s texts ih =>
    obtain ⟨hs, htexts⟩ := List.forall_mem_cons.mp h
    by_cases hn : texts = []
    · rw [hn, String.intercalate_singleton]
      exact hs
    · rw [String.intercalate_cons_of_ne_nil hn]
      exact (hs.append (by decide)).append (ih htexts)

theorem spaced_joined {values : List Value} (h : ∀ v ∈ values, v.Solid) :
    Text.Spaced (joined values) := by
  apply Text.Spaced.intercalate
  intro s hs
  obtain ⟨v, hv, rfl⟩ := List.mem_map.mp hs
  exact (h v hv).spaced

theorem CommandName.solid_word (n : CommandName) : Text.Solid n.word := by
  cases n <;> decide

theorem Failure.spaced_countArguments (n : Nat) : Text.Spaced (countArguments n) := by
  refine (solid_toString n).spaced.append ?_
  split <;> decide

/-- a message is fixed but for numbers, the name of a command and the word that names none -/
theorem Failure.spaced_message {f : Failure}
    (h : ∀ word, f = .unknownCommand word → Text.Solid word) : Text.Spaced f.message := by
  have hcommand : Text.Spaced "Command \"" := by decide
  have hgot : Text.Spaced ", got " := by decide
  have hdot : Text.Spaced "." := by decide
  cases f with
  | unknownCommand word => exact (hcommand.append (h word rfl).spaced).append (by decide)
  | divisionByZero => exact (by decide : Text.Spaced "Division by zero.")
  | arityMismatch name expected got =>
    have hexpects : Text.Spaced "\" expects " := by decide
    exact ((((hcommand.append name.solid_word.spaced).append hexpects).append
      (spaced_countArguments expected)).append hgot |>.append (solid_toString got).spaced).append
      hdot
  | depthExceeded limit =>
    have hfront : Text.Spaced "Maximum nesting depth of " := by decide
    exact (hfront.append (solid_toString limit).spaced).append (by decide)
  | missingOperand needed got =>
    have hfront : Text.Spaced "Missing operand: " := by decide
    have hneeded : Text.Spaced " needed, got " := by decide
    exact (((hfront.append (solid_toString needed).spaced).append hneeded).append
      (solid_toString got).spaced).append hdot

end LineScript
