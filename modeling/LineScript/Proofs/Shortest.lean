import LineScript.Number.Shortest
import LineScript.Proofs.Nearest

/-!
# The digits that are written

The count of `10 ^ -324` that is written for a rank reads back as the rank, since these are closer to
each other than any two magnitudes, and no count that reads back is a multiple of a greater power of
ten, since what lies between such a count and the rank reads back as well.

* `readsBack_iff`            reading back is being nearest;
* `readsBack_shortest`       what is written reads back;
* `tenPow_dvd_shortest`      it is a multiple of every power of ten of which some count is that reads
                             back;
* `shortest_fewest`          so no count that reads back has fewer digits;
* `shortest_of_magnitude`    a rank whose magnitude is an integer below `2 ^ 53` is written as this
                             integer.
-/

namespace LineScript

theorem tenPow_pos (n : Nat) : 0 < tenPow n := Nat.pow_pos (by decide)

theorem cast_tenPow_pos (n : Nat) : (0 : ℚ) < tenPow n := by exact_mod_cast tenPow_pos n

/-- a count of `10 ^ -324` -/
def counted (n : Nat) : ℚ := n / tenPow 324

theorem counted_strictMono : StrictMono counted := by
  intro m n h
  exact div_lt_div_of_pos_right (by exact_mod_cast h) (cast_tenPow_pos 324)

theorem counted_zero : counted 0 = magnitude 0 := by
  rw [counted, Nat.cast_zero, zero_div, magnitude_zero]

theorem counted_succ (n : Nat) : counted (n + 1) = counted n + counted 1 := by
  rw [counted, counted, counted, Nat.cast_succ, Nat.cast_one, add_div]

theorem counted_two_mul (n : Nat) : counted (2 * n) = 2 * counted n := by
  rw [counted, counted, Nat.cast_mul, Nat.cast_ofNat, mul_div_assoc]

/-! ## reading back -/

theorem readsBack_iff {r n : Nat} : readsBack r n ↔ Nearest r (counted n) := by
  have h : Nearest r _ ↔ nearestRank (n <<< 1074) _ = r := nearest_iff (tenPow_pos 324)
  rw [div_mul_eq_mul_div, shiftLeft_mul_leastMagnitude] at h
  rw [readsBack, beq_iff_eq]
  exact h.symm

theorem eq_zero_of_readsBack {r : Nat} (h : readsBack r 0) : r = 0 := by
  rw [readsBack_iff, counted_zero] at h
  exact h.unique (nearest_magnitude 0)

/-- the two counts of a grid are the next below a rank and the next above -/
theorem mem_neighbours {r j n : Nat} :
    n ∈ neighbours r j ↔
      n = units r * tenPow 324 / (tenPow j <<< 1074) * tenPow j ∨
      n = (units r * tenPow 324 / (tenPow j <<< 1074) + 1) * tenPow j := by
  simp only [neighbours]
  split
  · rw [List.mem_pair]
  · rw [List.mem_pair, or_comm]

theorem dvd_of_mem_neighbours {r j n : Nat} (h : n ∈ neighbours r j) : tenPow j ∣ n := by
  rcases mem_neighbours.mp h with h | h <;> rw [h] <;> exact Nat.dvd_mul_left _ _

section
variable {r j n : Nat}

theorem shiftLeft_le_iff {a b k : Nat} : a <<< k ≤ b ↔ a ≤ b >>> k := by
  rw [Nat.shiftLeft_eq, Nat.shiftRight_eq_div_pow, Nat.le_div_iff_mul_le (Nat.two_pow_pos k)]

theorem le_div_shiftLeft_iff {a b t k : Nat} (ht : 0 < t) :
    a ≤ b / (t <<< k) ↔ a * t ≤ b >>> k := by
  rw [Nat.shiftLeft_eq, Nat.shiftRight_eq_div_pow, Nat.mul_comm t, ← Nat.div_div_eq_div_mul,
    Nat.le_div_iff_mul_le ht]

theorem counted_le_magnitude_iff :
    counted n ≤ magnitude r ↔ n ≤ (units r * tenPow 324) >>> 1074 := by
  have hscaled : counted n ≤ magnitude r ↔ n <<< 1074 ≤ units r * tenPow 324 := by
    rw [counted, magnitude, div_le_iff₀ (cast_tenPow_pos 324), ← shiftLeft_mul_leastMagnitude n, mul_right_comm,
      mul_le_mul_iff_left₀ leastMagnitude_pos]
    exact_mod_cast Iff.rfl
  rw [hscaled, shiftLeft_le_iff]

/-- the counts of a grid that are no greater than the rank are those up to the neighbour below -/
theorem counted_mul_le_magnitude_iff {k : Nat} :
    counted (k * tenPow j) ≤ magnitude r ↔ k ≤ units r * tenPow 324 / (tenPow j <<< 1074) := by
  rw [counted_le_magnitude_iff, le_div_shiftLeft_iff (tenPow_pos j)]

/-- a rank lies between its neighbours -/
theorem neighbours_enclose (r j : Nat) :
    ∃ low, low * tenPow j ∈ neighbours r j ∧ (low + 1) * tenPow j ∈ neighbours r j ∧
      counted (low * tenPow j) ≤ magnitude r ∧ magnitude r < counted ((low + 1) * tenPow j) := by
  refine ⟨_, mem_neighbours.mpr (Or.inl rfl), mem_neighbours.mpr (Or.inr rfl),
    counted_mul_le_magnitude_iff.mpr (Nat.le_refl _), ?_⟩
  rw [← not_le, counted_mul_le_magnitude_iff]
  exact Nat.not_succ_le_self _

/-- on a grid with a count that reads back one of the neighbours does -/
theorem exists_neighbour (hn : tenPow j ∣ n) (h : readsBack r n) :
    ∃ m ∈ neighbours r j, readsBack r m := by
  obtain ⟨k, rfl⟩ := hn
  rw [readsBack_iff, Nat.mul_comm] at h
  obtain ⟨low, hlow, hhigh, hbelow, habove⟩ := neighbours_enclose r j
  rcases Nat.lt_or_ge low k with hlt | hle
  · have hcounted := counted_strictMono.monotone (Nat.mul_le_mul_right (tenPow j) hlt)
    exact ⟨_, hhigh, readsBack_iff.mpr (h.of_between (Or.inl ⟨habove.le, hcounted⟩))⟩
  · have hcounted := counted_strictMono.monotone (Nat.mul_le_mul_right (tenPow j) hle)
    exact ⟨_, hlow, readsBack_iff.mpr (h.of_between (Or.inr ⟨hcounted, hbelow⟩))⟩

end

/-! ## the finest grid -/

/-- counts are closer to each other than a rank to the next -/
theorem counted_one_lt : counted 1 < leastMagnitude := by
  have hunits : units 1 = 1 := by decide
  have htwo : counted 2 ≤ magnitude 1 := counted_le_magnitude_iff.mpr (by decide +kernel)
  rw [magnitude, hunits, Nat.cast_one, one_mul] at htwo
  exact lt_of_lt_of_le (counted_strictMono Nat.one_lt_two) htwo

theorem magnitude_lt_counted (r : Nat) :
    magnitude r < counted ((units r * tenPow 324) >>> 1074 + 1) := by
  rw [← not_le, counted_le_magnitude_iff]
  exact Nat.not_succ_le_self _

theorem exists_readsBack (r : Nat) : ∃ n, readsBack r n := by
  have hone := counted_one_lt
  have hbelow := counted_le_magnitude_iff.mpr (Nat.le_refl ((units r * tenPow 324) >>> 1074))
  have habove := magnitude_lt_counted r
  generalize (units r * tenPow 324) >>> 1074 = low at hbelow habove
  by_cases hclose : magnitude r - counted low < leastMagnitude / 2
  · refine ⟨low, readsBack_iff.mpr (nearest_of_close ?_)⟩
    rwa [abs_of_nonneg (sub_nonneg.mpr hbelow)]
  · refine ⟨low + 1, readsBack_iff.mpr (nearest_of_close ?_)⟩
    rw [abs_of_neg (sub_neg.mpr habove), counted_succ]
    linarith

/-! ## the search -/

/-- a search from the greatest number downwards ends at the greatest with a hit -/
theorem findSome?_reverse_range {α : Type} {f : Nat → Option α} {n : Nat} {a : α}
    (h : (List.range n).reverse.findSome? f = some a) :
    ∃ j < n, f j = some a ∧ ∀ k < n, j < k → f k = none := by
  induction n with
  | zero => cases h
  | succ n ih =>
    rw [List.range_succ, List.reverse_append, List.reverse_singleton, List.singleton_append,
      List.findSome?_cons] at h
    cases hn : f n with
    | some b =>
      rw [hn] at h
      refine ⟨n, Nat.lt_succ_self n, hn.trans h, fun k hk hlt => ?_⟩
      omega
    | none =>
      rw [hn] at h
      obtain ⟨j, hj, hfound, hnone⟩ := ih h
      refine ⟨j, Nat.lt_succ_of_lt hj, hfound, fun k hk hlt => ?_⟩
      rcases Nat.lt_succ_iff_lt_or_eq.mp hk with hless | rfl
      · exact hnone k hless hlt
      · exact hn

/-- what is written is a neighbour that reads back, on the coarsest grid on which one does -/
theorem shortest_spec (r : Nat) :
    ∃ j ≤ coarsest r, shortest r ∈ neighbours r j ∧ readsBack r (shortest r) ∧
      ∀ k ≤ coarsest r, j < k → ∀ m ∈ neighbours r k, ¬readsBack r m := by
  generalize hfound : ((List.range (coarsest r + 1)).reverse.findSome? fun j =>
    (neighbours r j).find? (readsBack r)) = found
  cases found with
  | none =>
    -- on the finest grid there is a hit
    obtain ⟨n, hn⟩ := exists_readsBack r
    have hgrid : tenPow 0 ∣ n := Nat.one_dvd n
    obtain ⟨m, hm, hreads⟩ := exists_neighbour hgrid hn
    rw [List.findSome?_eq_none_iff] at hfound
    have hnone := hfound 0 (by simp)
    exact absurd hreads (List.find?_eq_none.mp hnone m hm)
  | some n =>
    obtain ⟨j, hj, hhit, hnone⟩ := findSome?_reverse_range hfound
    have hshortest : shortest r = n := by
      rw [shortest, hfound]
      rfl
    rw [hshortest]
    refine ⟨j, Nat.le_of_lt_succ hj, List.mem_of_find?_eq_some hhit, List.find?_some hhit, ?_⟩
    intro k hk hlt m hm
    exact List.find?_eq_none.mp (hnone k (Nat.lt_succ_of_le hk) hlt) m hm

/-- what is written for a rank reads back as this rank -/
theorem readsBack_shortest (r : Nat) : readsBack r (shortest r) := by
  obtain ⟨j, -, -, hreads, -⟩ := shortest_spec r
  exact hreads

theorem nearest_shortest (r : Nat) : Nearest r (counted (shortest r)) :=
  readsBack_iff.mp (readsBack_shortest r)

theorem shortest_eq_zero_iff {r : Nat} : shortest r = 0 ↔ r = 0 := by
  constructor
  · intro h
    exact eq_zero_of_readsBack (h ▸ readsBack_shortest r)
  · rintro rfl
    decide +kernel

/-! ## the coarsest grid -/

theorem units_succ_le {r : Nat} (h : r ≠ 0) : units (r + 1) ≤ 2 * units r := by
  obtain ⟨block, m, rfl, hin, hm⟩ := exists_block r
  have hnext : block = 0 ∨ blockSize ≤ m + 1 := hin.imp_right Nat.le_succ_of_le
  have hpos : m ≠ 0 := by
    rintro rfl
    rcases hin with rfl | hle
    · exact h rfl
    · exact absurd hle (by decide)
  rw [Nat.add_assoc, units_block hin hm.le, units_block hnext hm, ← Nat.mul_assoc]
  exact Nat.mul_le_mul_right _ (by omega)

/-- a count that reads back is less than twice the rank -/
theorem counted_lt_of_readsBack {r n : Nat} (hr : r ≠ 0) (h : readsBack r n) :
    counted n < 2 * magnitude r := by
  have hle : magnitude (r + 1) ≤ 2 * magnitude r := by
    have hunits : (units (r + 1) : ℚ) ≤ 2 * units r := by exact_mod_cast units_succ_le hr
    rw [magnitude, magnitude, ← mul_assoc]
    exact mul_le_mul_of_nonneg_right hunits leastMagnitude_pos.le
  by_contra hge
  have hrank := (readsBack_iff.mp h).le_of_magnitude_le (hle.trans (not_lt.mp hge))
  exact absurd hrank (Nat.not_succ_le_self r)

/-- so no multiple of a power of ten beyond the coarsest grid reads back -/
theorem le_coarsest {r j n : Nat} (hr : r ≠ 0) (hn : tenPow j ∣ n) (h : readsBack r n) :
    j ≤ coarsest r := by
  have hpos : n ≠ 0 := by
    rintro rfl
    exact hr (eq_zero_of_readsBack h)
  have hfloor : (units r * tenPow 324) >>> 1074 < 10 ^ coarsest r :=
    (Nat.length_toDigits_le_iff (by decide) (List.length_pos_of_ne_nil Nat.toDigits_ne_nil)).mp
      (Nat.le_refl _)
  have hdouble : counted n < counted (2 * 10 ^ coarsest r) := by
    have hlt := counted_lt_of_readsBack hr h
    have habove := magnitude_lt_counted r
    have hle := counted_strictMono.monotone (Nat.succ_le_of_lt hfloor)
    rw [counted_two_mul]
    linarith
  have hpower : 10 ^ j < 10 ^ (coarsest r + 1) :=
    calc 10 ^ j ≤ n := Nat.le_of_dvd (Nat.pos_of_ne_zero hpos) hn
      _ < 2 * 10 ^ coarsest r := counted_strictMono.lt_iff_lt.mp hdouble
      _ ≤ 10 ^ (coarsest r + 1) := by
        rw [Nat.pow_succ, Nat.mul_comm]
        exact Nat.mul_le_mul_left _ (by decide)
  exact Nat.le_of_lt_succ ((Nat.pow_lt_pow_iff_right (by decide)).mp hpower)

theorem tenPow_dvd_tenPow {j k : Nat} (h : j ≤ k) : tenPow j ∣ tenPow k := pow_dvd_pow 10 h

/-- what is written is a neighbour on a grid, and on no coarser grid any count reads back -/
theorem exists_grid {r : Nat} (hr : r ≠ 0) :
    ∃ j, shortest r ∈ neighbours r j ∧ ∀ k n, tenPow k ∣ n → readsBack r n → k ≤ j := by
  obtain ⟨j, -, hmem, -, hnone⟩ := shortest_spec r
  refine ⟨j, hmem, fun k n hn h => ?_⟩
  by_contra hlt
  obtain ⟨m, hm, hreads⟩ := exists_neighbour hn h
  exact hnone k (le_coarsest hr hn h) (Nat.not_le.mp hlt) m hm hreads

/-- no count that reads back is a multiple of a greater power of ten than what is written -/
theorem tenPow_dvd_shortest {r j n : Nat} (hn : tenPow j ∣ n) (h : readsBack r n) :
    tenPow j ∣ shortest r := by
  by_cases hr : r = 0
  · rw [shortest_eq_zero_iff.mpr hr]
    exact Nat.dvd_zero _
  obtain ⟨k, hmem, hcoarsest⟩ := exists_grid hr
  exact (tenPow_dvd_tenPow (hcoarsest j n hn h)).trans (dvd_of_mem_neighbours hmem)

/-- **What is written has the fewest digits.**  If a count that reads back has so many digits, not counting
zeros at its end, then what is written has no more. -/
theorem shortest_fewest {r m t places : Nat} (hm : m < tenPow places)
    (h : readsBack r (m * tenPow t)) :
    ∃ m' t', m' < tenPow places ∧ shortest r = m' * tenPow t' := by
  by_cases hr : r = 0
  · exact ⟨0, 0, tenPow_pos places, by rw [shortest_eq_zero_iff.mpr hr, Nat.zero_mul]⟩
  obtain ⟨j, hmem, hcoarsest⟩ := exists_grid hr
  have hplaces : 0 < places := by
    rcases Nat.eq_zero_or_pos places with rfl | hpos
    · have hzero : m = 0 := Nat.lt_one_iff.mp hm
      rw [hzero, Nat.zero_mul] at h
      exact absurd (eq_zero_of_readsBack h) hr
    · exact hpos
  have htj : t ≤ j := hcoarsest t _ (Nat.dvd_mul_left _ _) h
  -- the rank is below so many places of the grid, or the first count beyond them would read back
  have hbelow : magnitude r < counted (tenPow places * tenPow j) := by
    by_contra hge
    have hn : m * tenPow t ≤ tenPow places * tenPow j :=
      Nat.mul_le_mul hm.le (Nat.pow_le_pow_right (by decide) htj)
    have hreads : readsBack r (tenPow places * tenPow j) := by
      rw [readsBack_iff] at h ⊢
      exact h.of_between (Or.inr ⟨counted_strictMono.monotone hn, not_lt.mp hge⟩)
    rw [tenPow_eq, tenPow_eq, ← Nat.pow_add, ← tenPow_eq] at hreads
    have hle := hcoarsest (places + j) _ (Nat.dvd_refl _) hreads
    omega
  rw [← not_le, counted_mul_le_magnitude_iff, Nat.not_le] at hbelow
  rcases mem_neighbours.mp hmem with hlow | hhigh
  · exact ⟨_, j, hbelow, hlow⟩
  rcases Nat.lt_or_eq_of_le (Nat.succ_le_of_lt hbelow) with hlt | heq
  · exact ⟨_, j, hlt, hhigh⟩
  · refine ⟨1, places + j, Nat.one_lt_pow hplaces.ne' (by decide), ?_⟩
    rw [hhigh, Nat.one_mul, tenPow_eq (places + j), Nat.pow_add]
    exact congrArg (· * tenPow j) heq

/-! ## integers -/

theorem counted_mul_tenPow (k : Nat) : counted (k * tenPow 324) = k := by
  rw [counted, Nat.cast_mul, mul_div_cancel_right₀ _ (cast_tenPow_pos 324).ne']

/-- up to the end of the block of steps of one every integer is a magnitude -/
theorem exists_magnitude_eq {k : Nat} (hk : k < 2 * blockSize) : ∃ r, magnitude r = k := by
  by_cases hzero : k = 0
  · exact ⟨0, by rw [hzero, magnitude_zero, Nat.cast_zero]⟩
  have hlow := Nat.log2_self_le hzero
  have hhigh : k < 2 ^ (k.log2 + 1) := Nat.lt_log2_self
  have hlog : k.log2 ≤ 52 := by
    have hsize : k < 2 ^ 53 := lt_of_lt_of_eq hk (by decide +kernel)
    exact Nat.le_of_lt_succ ((Nat.log2_lt hzero).mpr hsize)
  generalize k.log2 = e at hlow hhigh hlog
  have hmin : blockSize ≤ k * 2 ^ (52 - e) := by
    rw [blockSize_eq, ← Nat.add_sub_cancel' hlog, Nat.pow_add, Nat.add_sub_cancel_left]
    exact Nat.mul_le_mul_right _ hlow
  have hmax : k * 2 ^ (52 - e) ≤ 2 * blockSize := by
    rw [blockSize_eq, ← Nat.pow_succ', show Nat.succ 52 = e + 1 + (52 - e) by omega, Nat.pow_add]
    exact Nat.mul_le_mul_right _ hhigh.le
  refine ⟨(1022 + e) * blockSize + k * 2 ^ (52 - e), ?_⟩
  rw [magnitude, units_block (Or.inr hmin) hmax, Nat.mul_assoc, ← Nat.pow_add, ← Nat.shiftLeft_eq,
    show 52 - e + (1022 + e) = 1074 by omega, shiftLeft_mul_leastMagnitude]

/-- a rank that is an integer is written as this integer, with zeros behind it -/
theorem shortest_of_magnitude {r k : Nat} (h : magnitude r = k) (hk : k + 1 < 2 * blockSize) :
    shortest r = k * tenPow 324 := by
  have hreads : readsBack r (k * tenPow 324) := by
    rw [readsBack_iff, counted_mul_tenPow, ← h]
    exact nearest_magnitude r
  obtain ⟨m, hm⟩ := tenPow_dvd_shortest (Nat.dvd_mul_left (tenPow 324) k) hreads
  have hnearest := nearest_shortest r
  rw [hm, Nat.mul_comm, counted_mul_tenPow] at hnearest
  have hsmall : m < 2 * blockSize := by
    -- otherwise the rank would be no less than the next integer
    by_contra hge
    obtain ⟨s, hs⟩ := exists_magnitude_eq hk
    have hnext : magnitude s ≤ m := by
      rw [hs]
      exact_mod_cast hk.le.trans (Nat.not_lt.mp hge)
    have hmono := magnitude_strictMono.monotone (hnearest.le_of_magnitude_le hnext)
    rw [hs, h] at hmono
    exact absurd (Nat.cast_le.mp hmono) (Nat.not_succ_le_self k)
  obtain ⟨s, hs⟩ := exists_magnitude_eq hsmall
  have hsame : r = s := hnearest.unique (hs ▸ nearest_magnitude s)
  have hcast : (k : ℚ) = m := by rw [← h, hsame, hs]
  rw [hm, Nat.mul_comm, Nat.cast_injective hcast]

end LineScript
