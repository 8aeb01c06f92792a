import Sortie.Proofs.Decimal.Counts
import Sortie.Proofs.Decimal.Shortest

/-!
# Whole numbers are written in full

The search for the fewest digits starts before the point (`leading_bounds`) and goes one place at a
time, and a whole number is on the grid of ones itself.  So the shortest decimal of a count has no
places behind the point, and then it is that count (`shortest_ofNat`).
-/

namespace Sortie.Decimal

variable {r : Range} {tie : Tie} {d : Decimal}

/-! ### The first decade -/

/-- The value of a number in its range. -/
def Range.center (r : Range) : ℚ :=
  r.value / r.den

theorem center_range (b : Binary) : b.range.center = scaled b.mantissa b.exponent := by
  rw [scaled_quarters, scaled_eq_range]
  rfl

theorem decade_cond_iff (hden : 0 < r.den) (k : ℤ) :
    (powerOfTen k).1 * r.den ≤ r.value * (powerOfTen k).2 ↔ (10 : ℚ) ^ k ≤ r.center := by
  rw [← powerOfTen_ratio, Range.center, div_le_div_iff_nat (powerOfTen_pos k).2 hden]

/-- The decade of a number that is not below one. -/
theorem decade_nonneg (hden : 0 < r.den) (h : 1 ≤ r.center) {tries : ℕ} {k : ℤ}
    (hk : -(tries : ℤ) ≤ k) : 0 ≤ r.decade tries k := by
  induction tries generalizing k with
  | zero => simpa [Range.decade] using hk
  | succ tries ih =>
    unfold Range.decade
    dsimp only
    split
    · exact ih (by push_cast at hk; omega)
    · next hcond =>
      rw [decade_cond_iff hden] at hcond
      by_contra hneg
      exact hcond ((zpow_le_one_of_nonpos₀ (by norm_num) (by omega)).trans h)

theorem decade_le (hden : 0 < r.den) {l : ℤ} (h : r.center < 10 ^ (l + 1)) {tries : ℕ} {k : ℤ}
    (hk : k ≤ l) : r.decade tries k ≤ l := by
  induction tries generalizing k with
  | zero => exact hk
  | succ tries ih =>
    unfold Range.decade
    dsimp only
    split
    · next hcond =>
      rw [decade_cond_iff hden] at hcond
      have := (zpow_lt_zpow_iff_right₀ (by norm_num : (1 : ℚ) < 10)).mp (hcond.trans_lt h)
      exact ih (by omega)
    · exact hk

/-- The first decade that is looked at, for a number with few places before the point. -/
theorem leading_bounds (hvalue : 0 < r.value) (hden : 0 < r.den) (hlow : 1 ≤ r.center)
    (hhigh : r.center < 2 ^ 52) : 0 ≤ r.leading ∧ r.leading ≤ 15 := by
  obtain ⟨hbelow, habove⟩ := log_bounds hvalue hden
  have hfloor : (2 : ℚ) ^ (0 : ℤ) < 2 ^ ((r.value.log2 : ℤ) - r.den.log2 + 1) := by
    rw [zpow_zero]
    exact hlow.trans_lt habove
  have hceiling : (2 : ℚ) ^ ((r.value.log2 : ℤ) - r.den.log2 - 1) < 2 ^ (52 : ℤ) := by
    refine hbelow.trans_lt (hhigh.trans_eq ?_)
    norm_num
  have hmin := (zpow_lt_zpow_iff_right₀ one_lt_two).mp hfloor
  have hmax := (zpow_lt_zpow_iff_right₀ one_lt_two).mp hceiling
  constructor
  · exact decade_nonneg hden hlow (by push_cast; omega)
  · refine decade_le hden (hhigh.trans ?_) (by omega)
    norm_num

/-! ### The search -/

theorem exponent_onGrid {k : ℤ} (h : r.onGrid tie k = some d) : d.exponent = k := by
  unfold Range.onGrid at h
  dsimp only at h
  split at h
  · cases h
  · rw [← Option.some.inj h]
  · rw [← Option.some.inj h]
  · split at h
    · rw [← Option.some.inj h]
    · split at h
      · rw [← Option.some.inj h]
      · cases tie with
        | up => rw [← Option.some.inj h]
        | even =>
          rw [← Option.some.inj h]
          split <;> rfl

/-- The search stops at the ones if there is a decimal. -/
theorem exists_search {more : ℕ} {k : ℤ} (hone : r.onGrid tie 0 ≠ none) (hk : 0 ≤ k)
    (hmore : k < more) : ∃ d, r.search tie more k = some d ∧ 0 ≤ d.exponent := by
  induction more generalizing k with
  | zero => omega
  | succ more ih =>
    unfold Range.search
    cases hgrid : r.onGrid tie k with
    | some d => exact ⟨d, rfl, (exponent_onGrid hgrid).symm ▸ hk⟩
    | none =>
      have hne : k ≠ 0 := by
        rintro rfl
        exact hone hgrid
      exact ih (by omega) (by push_cast at hmore; omega)

theorem exponent_le_trim (tries : ℕ) (d : Decimal) : d.exponent ≤ (d.trim tries).exponent := by
  induction tries generalizing d with
  | zero => exact le_refl _
  | succ tries ih =>
    unfold trim
    split
    · exact (Int.le_add_one (le_refl _)).trans (ih _)
    · exact le_refl _

/-! ### Counts -/

/-- A number that is a count has that count on the grid of ones. -/
theorem onGrid_zero {b : Binary} {n : ℕ} (hm : 0 < b.mantissa)
    (h : scaled b.mantissa b.exponent = n) : b.range.onGrid tie 0 ≠ none := by
  have hden := den_range_pos b
  have hcenter : (b.range.value : ℚ) / b.range.den = n := (center_range b).trans h
  have hvalue : b.range.value = n * b.range.den := by
    rw [div_eq_iff (Nat.cast_pos.mpr hden).ne'] at hcenter
    exact_mod_cast hcenter
  have hq : b.range.value * 1 / (b.range.den * 1) = n := by
    rw [mul_one, mul_one, hvalue, Nat.mul_div_cancel _ hden]
  have hholds : b.range.holds ⟨n, 0⟩ = true := by
    rw [holds_range_iff]
    have hself := b.covers_self hm
    rw [h] at hself
    simpa [value] using hself
  unfold Range.onGrid
  rw [show powerOfTen 0 = (1, 1) from rfl]
  dsimp only
  rw [hq, hholds]
  cases b.range.holds ⟨n + 1, 0⟩ with
  | false => exact Option.some_ne_none _
  | true =>
    dsimp only
    split
    · exact Option.some_ne_none _
    · split
      · exact Option.some_ne_none _
      · cases tie <;> exact Option.some_ne_none _

theorem scaled_add_left (m n : ℕ) (e : ℤ) : scaled (m + n) e = scaled m e + scaled n e := by
  unfold scaled
  push_cast
  ring

section

variable {b : Binary} {n : ℕ}

/-- A count below `2 ^ 52` has binary places to spare. -/
theorem exponent_neg (hb : Canonical b.mantissa b.exponent)
    (h : scaled b.mantissa b.exponent = n) (hn : n < 2 ^ 52) : b.exponent < 0 := by
  by_contra hneg
  have hfull := hb.full.resolve_right (by omega)
  obtain ⟨k, hk⟩ : ∃ k : ℕ, b.exponent = k := ⟨b.exponent.toNat, by omega⟩
  rw [hk] at h
  have hle : (b.mantissa : ℚ) ≤ scaled b.mantissa k := by
    unfold scaled
    rw [zpow_natCast]
    exact le_mul_of_one_le_right (Nat.cast_nonneg _) (one_le_pow₀ one_le_two)
  have : b.mantissa ≤ n := by exact_mod_cast hle.trans_eq h
  omega

/-- A number that covers a count and is one is that count. -/
theorem eq_of_covers (hb : Canonical b.mantissa b.exponent)
    (h : scaled b.mantissa b.exponent = n) (hn : n < 2 ^ 52) {k : ℕ} (hk : b.Covers (k : ℚ)) :
    k = n := by
  have hneg := exponent_neg hb h hn
  have hbelow := b.below_le
  have hgap : scaled 2 (b.exponent - 2) < 1 := by
    calc scaled 2 (b.exponent - 2) = 2 ^ (b.exponent - 2 + (1 : ℕ)) := scaled_pow 1 _
      _ < 2 ^ (0 : ℤ) := zpow_lt_zpow_right₀ one_lt_two (by push_cast; omega)
      _ = 1 := zpow_zero 2
  rw [scaled_quarters] at h
  have hhigh : (k : ℚ) < n + 1 := by
    have := hk.high
    rw [scaled_add_left, h] at this
    linarith
  have hlow : (n : ℚ) < k + 1 := by
    have hsplit : 4 * b.mantissa ≤ (4 * b.mantissa - b.below) + 2 := by omega
    have := (scaled_le_scaled_iff (b.exponent - 2)).mpr hsplit
    rw [scaled_add_left, h] at this
    linarith [hk.low]
  have : k < n + 1 := by exact_mod_cast hhigh
  have : n < k + 1 := by exact_mod_cast hlow
  omega

/-- The shortest decimal of a count is that count. -/
theorem shortest_of_count (hpos : 0 < n) (hn : n < 2 ^ 52) (hb : Canonical b.mantissa b.exponent)
    (hm : 0 < b.mantissa) (h : scaled b.mantissa b.exponent = n) :
    ∃ k : ℕ, (b.shortest tie).exponent = .ofNat k ∧ (b.shortest tie).digits * 10 ^ k = n := by
  have hcovers := covers_shortest tie hm
  have hden := den_range_pos b
  have hcenter : b.range.center = n := (center_range b).trans h
  have hvalue : 0 < b.range.value :=
    Nat.mul_pos (Nat.mul_pos (by decide) hm) (powerOfTwo_pos b.exponent).1
  obtain ⟨hleading, hleading'⟩ := leading_bounds hvalue hden
    (hcenter.symm ▸ by exact_mod_cast hpos) (hcenter.symm ▸ by exact_mod_cast hn)
  obtain ⟨d, hsearch, hexponent⟩ := exists_search (onGrid_zero hm h) hleading
    (by omega : b.range.leading < (17 : ℕ))
  have hshortest : b.shortest tie = d.trim 17 := by
    unfold Binary.shortest
    dsimp only
    rw [hsearch]
  obtain ⟨k, hk⟩ : ∃ k : ℕ, (b.shortest tie).exponent = k :=
    ⟨(b.shortest tie).exponent.toNat, by
      have := exponent_le_trim 17 d
      rw [hshortest]
      omega⟩
  refine ⟨k, hk, eq_of_covers hb h hn ?_⟩
  rw [value, hk, zpow_natCast] at hcovers
  exact_mod_cast hcovers

end

end Sortie.Decimal
