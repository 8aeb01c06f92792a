import Sortie.Decimal.Shortest
import Sortie.Proofs.Decimal.Nearest

/-!
# Decimals that read back

A decimal is held by the range of a number if the number covers its value (`holds_range_iff`).  The
search looks at such decimals only, and zeros at the end do not change the value, so the shortest
decimal of a number is among what the number covers (`covers_shortest`), and any decimal there reads
as that number (`toFloat_of_covers`).  The limits that keep powers of ten small lie outside the
range of every number.
-/

namespace Sortie.Decimal

/-- What a decimal stands for. -/
def value (d : Decimal) : ℚ :=
  d.digits * 10 ^ d.exponent

theorem powerOfTen_pos (e : ℤ) : 0 < (powerOfTen e).1 ∧ 0 < (powerOfTen e).2 := by
  cases e <;> simp [powerOfTen, Nat.pow_eq]

theorem powerOfTen_ratio (e : ℤ) : ((powerOfTen e).1 : ℚ) / (powerOfTen e).2 = 10 ^ e := by
  cases e with
  | ofNat e => simp [powerOfTen, Nat.pow_eq]
  | negSucc e => simp [powerOfTen, Nat.pow_eq, zpow_negSucc]

theorem value_eq_div (d : Decimal) :
    d.value = ((d.digits * (powerOfTen d.exponent).1 : ℕ) : ℚ) / (powerOfTen d.exponent).2 := by
  rw [value, ← powerOfTen_ratio]
  push_cast
  ring

/-! ### The range of a number -/

/-- Quarters of the last place, as a fraction over the denominator of the range. -/
theorem scaled_eq_range (b : Binary) (n : ℕ) :
    scaled n (b.exponent - 2) = ((n * (powerOfTwo b.exponent).1 : ℕ) : ℚ) / b.range.den := by
  have hden : b.range.den = 4 * (powerOfTwo b.exponent).2 := rfl
  rw [scaled, zpow_sub₀ two_ne_zero, ← powerOfTwo_ratio, hden]
  push_cast
  field_simp

theorem den_range_pos (b : Binary) : 0 < b.range.den :=
  Nat.mul_pos (by decide) (powerOfTwo_pos b.exponent).2

theorem low_range (b : Binary) :
    scaled (4 * b.mantissa - b.below) (b.exponent - 2) = (b.range.low : ℚ) / b.range.den :=
  scaled_eq_range b _

theorem high_range (b : Binary) :
    scaled (4 * b.mantissa + 2) (b.exponent - 2) = (b.range.high : ℚ) / b.range.den :=
  scaled_eq_range b _

theorem div_le_div_iff_nat {a b c d : ℕ} (hb : 0 < b) (hd : 0 < d) :
    (a : ℚ) / b ≤ c / d ↔ a * d ≤ c * b := by
  rw [div_le_div_iff₀ (Nat.cast_pos.mpr hb) (Nat.cast_pos.mpr hd)]
  exact_mod_cast Iff.rfl

theorem div_lt_div_iff_nat {a b c d : ℕ} (hb : 0 < b) (hd : 0 < d) :
    (a : ℚ) / b < c / d ↔ a * d < c * b := by
  rw [div_lt_div_iff₀ (Nat.cast_pos.mpr hb) (Nat.cast_pos.mpr hd)]
  exact_mod_cast Iff.rfl

/-- The ends of the range are covered by even numbers. -/
theorem Binary.covers_iff (b : Binary) (v : ℚ) :
    b.Covers v ↔
      if b.mantissa % 2 = 0 then
        scaled (4 * b.mantissa - b.below) (b.exponent - 2) ≤ v ∧
          v ≤ scaled (4 * b.mantissa + 2) (b.exponent - 2)
      else
        scaled (4 * b.mantissa - b.below) (b.exponent - 2) < v ∧
          v < scaled (4 * b.mantissa + 2) (b.exponent - 2) := by
  split
  · next heven => exact ⟨fun h => ⟨h.low, h.high⟩, fun ⟨hl, hh⟩ => ⟨hl, hh, fun _ => heven⟩⟩
  · next hodd =>
    constructor
    · intro h
      exact ⟨lt_of_le_of_ne h.low fun heq => hodd (h.tie (.inl heq.symm)),
        lt_of_le_of_ne h.high fun heq => hodd (h.tie (.inr heq))⟩
    · rintro ⟨hl, hh⟩
      exact ⟨hl.le, hh.le, fun h => (h.elim hl.ne' hh.ne).elim⟩

/-- The range of a number holds what the number covers. -/
theorem holds_range_iff (b : Binary) (d : Decimal) :
    b.range.holds d = true ↔ b.Covers d.value := by
  have hden := den_range_pos b
  have hdown := (powerOfTen_pos d.exponent).2
  have hclosed : b.range.closed = decide (b.mantissa % 2 = 0) := rfl
  rw [Binary.covers_iff, low_range, high_range, value_eq_div]
  simp only [div_le_div_iff_nat hden hdown, div_le_div_iff_nat hdown hden,
    div_lt_div_iff_nat hden hdown, div_lt_div_iff_nat hdown hden]
  simp only [Range.holds, hclosed]
  by_cases heven : b.mantissa % 2 = 0 <;> simp [heven]

/-! ### The search -/

theorem Range.holds_onGrid {r : Range} {tie : Tie} {k : ℤ} {d : Decimal}
    (h : r.onGrid tie k = some d) : r.holds d = true := by
  unfold Range.onGrid at h
  dsimp only at h
  split at h
  · cases h
  · next hbelow _ => rwa [← Option.some.inj h]
  · next _ habove => rwa [← Option.some.inj h]
  · next hbelow habove =>
    split at h
    · rwa [← Option.some.inj h]
    · split at h
      · rwa [← Option.some.inj h]
      · cases tie with
        | up => rwa [← Option.some.inj h]
        | even =>
          rw [← Option.some.inj h]
          split
          · exact hbelow
          · exact habove

theorem Range.holds_search {r : Range} {tie : Tie} {more : ℕ} {k : ℤ} {d : Decimal}
    (h : r.search tie more k = some d) : r.holds d = true := by
  induction more generalizing k with
  | zero => cases h
  | succ more ih =>
    unfold Range.search at h
    split at h
    · next hgrid =>
      rw [← Option.some.inj h]
      exact holds_onGrid hgrid
    · exact ih h

/-- A zero less at the end, and the exponent one greater. -/
theorem value_trim (tries : ℕ) (d : Decimal) : (d.trim tries).value = d.value := by
  induction tries generalizing d with
  | zero => rfl
  | succ tries ih =>
    unfold trim
    split
    · next hzero =>
      obtain ⟨q, hq⟩ := Nat.dvd_of_mod_eq_zero hzero
      rw [ih]
      unfold value
      dsimp only
      rw [hq, Nat.mul_div_cancel_left q (by decide), zpow_add_one₀ (by norm_num)]
      push_cast
      ring
    · rfl

theorem value_whole (m e : ℕ) : value ⟨m * Nat.pow 2 e, 0⟩ = scaled m (.ofNat e) := by
  simp [value, scaled, Nat.pow_eq]

/-- Halves are brought to tenths. -/
theorem value_fraction (m e : ℕ) :
    value ⟨m * Nat.pow 5 (e + 1), .negSucc e⟩ = scaled m (.negSucc e) := by
  have hten : (10 : ℚ) ^ (e + 1) = 2 ^ (e + 1) * 5 ^ (e + 1) := by
    rw [← mul_pow]
    norm_num
  simp only [value, scaled, Nat.pow_eq, zpow_negSucc, hten]
  push_cast
  field_simp

theorem scaled_quarters (m : ℕ) (e : ℤ) : scaled m e = scaled (4 * m) (e - 2) := by
  have h := scaled_add m 2 (e - 2)
  rw [show e - 2 + (2 : ℕ) = e by push_cast; ring] at h
  rw [h, mul_comm]
  norm_num

theorem Binary.covers_self (b : Binary) (hm : 0 < b.mantissa) :
    b.Covers (scaled b.mantissa b.exponent) := by
  have hbelow : 0 < b.below := by
    unfold Binary.below
    split <;> decide
  have hlow := scaled_strictMono (b.exponent - 2)
    (by omega : 4 * b.mantissa - b.below < 4 * b.mantissa)
  have hhigh := scaled_strictMono (b.exponent - 2) (by omega : 4 * b.mantissa < 4 * b.mantissa + 2)
  dsimp only at hlow hhigh
  rw [scaled_quarters]
  exact ⟨hlow.le, hhigh.le, fun h => (h.elim hlow.ne' hhigh.ne).elim⟩

/-- The shortest decimal of a number is among what it covers. -/
theorem covers_shortest (tie : Tie) {b : Binary} (hm : 0 < b.mantissa) :
    b.Covers (b.shortest tie).value := by
  unfold Binary.shortest
  dsimp only
  split
  · next d hsearch =>
    rw [value_trim, ← holds_range_iff]
    exact Range.holds_search hsearch
  · have hself := b.covers_self hm
    split
    · next e he => rwa [value_whole, ← he]
    · next e he => rwa [value_fraction, ← he]

/-! ### Decimals as numbers -/

theorem covers_bounds {b : Binary} {v : ℚ} (hm : 0 < b.mantissa)
    (hb : Canonical b.mantissa b.exponent) (he : b.exponent ≤ 971) (h : b.Covers v) :
    2 ^ (-1075 : ℤ) ≤ v ∧ v ≤ 2 ^ (1024 : ℤ) := by
  have hlt := hb.lt
  have hlow := hb.low
  have hbelow := b.below_le
  constructor
  · calc (2 : ℚ) ^ (-1075 : ℤ) ≤ 2 ^ (b.exponent - 2 + (1 : ℕ)) :=
          zpow_le_zpow_right₀ one_le_two (by push_cast; omega)
      _ = scaled (2 ^ 1) (b.exponent - 2) := (scaled_pow 1 _).symm
      _ ≤ scaled (4 * b.mantissa - b.below) (b.exponent - 2) :=
          (scaled_le_scaled_iff _).mpr (by omega)
      _ ≤ v := h.low
  · calc v ≤ scaled (4 * b.mantissa + 2) (b.exponent - 2) := h.high
      _ ≤ scaled (2 ^ 55) (b.exponent - 2) := (scaled_le_scaled_iff _).mpr (by omega)
      _ = 2 ^ (b.exponent - 2 + (55 : ℕ)) := scaled_pow 55 _
      _ ≤ 2 ^ (1024 : ℤ) := zpow_le_zpow_right₀ one_le_two (by push_cast; omega)

/-- A decimal by the number of its digits. -/
theorem value_bounds {d : Decimal} (hd : d.digits ≠ 0) :
    (10 : ℚ) ^ (((Nat.toDigits 10 d.digits).length : ℤ) - 1 + d.exponent) ≤ d.value ∧
      d.value < 10 ^ (((Nat.toDigits 10 d.digits).length : ℤ) + d.exponent) := by
  have hpower : (0 : ℚ) < 10 ^ d.exponent := by positivity
  have hpos : 0 < (Nat.toDigits 10 d.digits).length := Nat.length_toDigits_pos
  generalize hcount : (Nat.toDigits 10 d.digits).length = count at *
  have hlt : d.digits < 10 ^ count :=
    (Nat.length_toDigits_le_iff (by decide) hpos).mp hcount.le
  have hle : 10 ^ (count - 1) ≤ d.digits := by
    by_cases hone : count = 1
    · rw [hone]
      exact Nat.one_le_iff_ne_zero.mpr hd
    · by_contra hsmall
      have := (Nat.length_toDigits_le_iff (by decide) (by omega)).mpr (not_le.mp hsmall)
      omega
  unfold value
  constructor
  · rw [zpow_add₀ (by norm_num), show (count : ℤ) - 1 = (count - 1 : ℕ) by omega, zpow_natCast]
    gcongr
    exact_mod_cast hle
  · rw [zpow_add₀ (by norm_num), zpow_natCast]
    gcongr
    exact_mod_cast hlt

/-- Powers of ten outside the range of all numbers. -/
theorem ten_pow_lt :
    (10 : ℚ) ^ (-331 : ℤ) < 2 ^ (-1075 : ℤ) ∧ (2 : ℚ) ^ (1024 : ℤ) < 10 ^ (310 : ℤ) := by
  have hsmall : 2 ^ 1075 < 10 ^ 331 := by decide +kernel
  have hgreat : 2 ^ 1024 < 10 ^ 310 := by decide +kernel
  constructor
  · rw [zpow_neg, zpow_neg, inv_lt_inv₀ (by positivity) (by positivity)]
    exact_mod_cast hsmall
  · exact_mod_cast hgreat

/-- The first digit of a decimal that a number covers is not far from the point. -/
theorem count_bounds {b : Binary} {d : Decimal} (hm : 0 < b.mantissa)
    (hb : Canonical b.mantissa b.exponent) (he : b.exponent ≤ 971) (h : b.Covers d.value) :
    d.digits ≠ 0 ∧ -330 ≤ ((Nat.toDigits 10 d.digits).length : ℤ) + d.exponent ∧
      ((Nat.toDigits 10 d.digits).length : ℤ) + d.exponent ≤ 310 := by
  obtain ⟨hsmall, hgreat⟩ := covers_bounds hm hb he h
  have hd : d.digits ≠ 0 := by
    intro hzero
    have : d.value = 0 := by simp [value, hzero]
    rw [this] at hsmall
    exact absurd hsmall (not_le.mpr (by positivity))
  obtain ⟨hlow, hhigh⟩ := value_bounds hd
  generalize ((Nat.toDigits 10 d.digits).length : ℤ) = count at *
  refine ⟨hd, not_lt.mp fun hlt => ?_, not_lt.mp fun hlt => ?_⟩
  · have hstep : (10 : ℚ) ^ (count + d.exponent) ≤ 10 ^ (-331 : ℤ) :=
      zpow_le_zpow_right₀ (by norm_num) (by omega)
    exact absurd (hsmall.trans_lt (hhigh.trans_le hstep)) (not_lt.mpr ten_pow_lt.1.le)
  · have hstep : (10 : ℚ) ^ (310 : ℤ) ≤ 10 ^ (count - 1 + d.exponent) :=
      zpow_le_zpow_right₀ (by norm_num) (by omega)
    exact absurd (hstep.trans (hlow.trans hgreat)) (not_le.mpr ten_pow_lt.2)

/-- Whatever a number covers reads as that number. -/
theorem toFloat_of_covers {x : Float} {b : Binary} {d : Decimal} (h : classify x = .finite b)
    (hm : 0 < b.mantissa) (hcovers : b.Covers d.value) : d.toFloat b.negative = x := by
  have hof := isOf_of_classify h
  obtain ⟨hd, htiny, hhuge⟩ := count_bounds hm hof.canonical hof.le hcovers
  unfold toFloat
  dsimp only
  rw [if_neg (not_or.mpr ⟨hd, not_lt.mpr htiny⟩), if_neg (not_lt.mpr hhuge)]
  refine nearest_of_covers h hm (powerOfTen_pos d.exponent).2 ?_
  rwa [← value_eq_div]

end Sortie.Decimal
