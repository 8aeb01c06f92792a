import Sortie.Proofs.Decimal.Values
import Sortie.Decimal.Numeral

/-!
# The nearest number

A positive number covers the reals that no other number is nearer to (`Binary.Covers`).  A fraction
in there is rounded to that number (`nearestBits_of_covers`): if the fraction has its last place in
common with the number, at the number of places between them, and if the number is a power of two
and the fraction lies below it, at the half places there are.  The bits of a number are its mantissa
and its exponent side by side, so the rounded fraction is the number (`nearest_of_covers`).
-/

namespace Sortie.Decimal

open Float.Model (UnpackedFloat Format)

/-! ### The last place -/

theorem powerOfTwo_pos (e : ℤ) : 0 < (powerOfTwo e).1 ∧ 0 < (powerOfTwo e).2 := by
  cases e <;> simp [powerOfTwo, Nat.pow_eq]

theorem powerOfTwo_ratio (e : ℤ) : ((powerOfTwo e).1 : ℚ) / (powerOfTwo e).2 = 2 ^ e := by
  cases e with
  | ofNat e => simp [powerOfTwo, Nat.pow_eq]
  | negSucc e => simp [powerOfTwo, Nat.pow_eq, zpow_negSucc]

/-- The exponent of the last place of the number nearest to `v`. -/
structure IsPlace (v : ℚ) (p : ℤ) : Prop where
  lt : v < 2 ^ (p + 53)
  low : -1074 ≤ p
  full : 2 ^ (p + 52) ≤ v ∨ p = -1074

theorem IsPlace.unique {v : ℚ} {p q : ℤ} (hp : IsPlace v p) (hq : IsPlace v q) : p = q := by
  have hle {p q : ℤ} (hp : IsPlace v p) (hq : IsPlace v q) : q ≤ p := by
    by_contra hlt
    have hfull := hq.full.resolve_right (by have := hp.low; omega)
    have := (zpow_lt_zpow_iff_right₀ one_lt_two).mp (hfull.trans_lt hp.lt)
    omega
  exact le_antisymm (hle hq hp) (hle hp hq)

theorem log_bounds {num den : ℕ} (hnum : 0 < num) (hden : 0 < den) :
    (2 : ℚ) ^ ((num.log2 : ℤ) - den.log2 - 1) ≤ num / den ∧
      (num : ℚ) / den < 2 ^ ((num.log2 : ℤ) - den.log2 + 1) := by
  have hden' : (0 : ℚ) < den := Nat.cast_pos.mpr hden
  have hnum_le : (2 : ℚ) ^ (num.log2 : ℤ) ≤ num := by exact_mod_cast Nat.log2_self_le hnum.ne'
  have hnum_lt : (num : ℚ) < 2 ^ (num.log2 + 1 : ℤ) := by exact_mod_cast Nat.lt_log2_self
  have hden_le : (2 : ℚ) ^ (den.log2 : ℤ) ≤ den := by exact_mod_cast Nat.log2_self_le hden.ne'
  have hden_lt : (den : ℚ) ≤ 2 ^ (den.log2 + 1 : ℤ) := by exact_mod_cast Nat.lt_log2_self.le
  constructor
  · rw [le_div_iff₀ hden']
    calc (2 : ℚ) ^ ((num.log2 : ℤ) - den.log2 - 1) * den
        ≤ 2 ^ ((num.log2 : ℤ) - den.log2 - 1) * 2 ^ (den.log2 + 1 : ℤ) := by gcongr
      _ = 2 ^ (num.log2 : ℤ) := by rw [← zpow_add₀ two_ne_zero]; congr 1; ring
      _ ≤ num := hnum_le
  · rw [div_lt_iff₀ hden']
    calc (num : ℚ) < 2 ^ (num.log2 + 1 : ℤ) := hnum_lt
      _ = 2 ^ ((num.log2 : ℤ) - den.log2 + 1) * 2 ^ (den.log2 : ℤ) := by
        rw [← zpow_add₀ two_ne_zero]; congr 1; ring
      _ ≤ 2 ^ ((num.log2 : ℤ) - den.log2 + 1) * den := by gcongr

theorem isPlace_lastPlace {num den : ℕ} (hnum : 0 < num) (hden : 0 < den) :
    IsPlace ((num : ℚ) / den) (lastPlace num den) := by
  obtain ⟨hlow, hhigh⟩ := log_bounds hnum hden
  obtain ⟨hup, hdown⟩ := powerOfTwo_pos ((num.log2 : ℤ) - den.log2 - 53)
  have hratio := powerOfTwo_ratio ((num.log2 : ℤ) - den.log2 - 53)
  unfold lastPlace
  dsimp only
  generalize powerOfTwo ((num.log2 : ℤ) - den.log2 - 53) = power at hup hdown hratio
  obtain ⟨up, down⟩ := power
  have hexact : num * down < Nat.pow 2 53 * (den * up) ↔
      (num : ℚ) / den < 2 ^ ((num.log2 : ℤ) - den.log2) := by
    have hden' : (0 : ℚ) < den := Nat.cast_pos.mpr hden
    have hdown' : (0 : ℚ) < down := Nat.cast_pos.mpr hdown
    have hpower : (2 : ℚ) ^ ((num.log2 : ℤ) - den.log2) = 2 ^ 53 * (up / down) := by
      rw [hratio, ← zpow_natCast, ← zpow_add₀ two_ne_zero]
      congr 1
      push_cast
      ring
    rw [hpower, ← mul_div_assoc, div_lt_div_iff₀ hden' hdown', Nat.pow_eq, mul_assoc,
      mul_comm (up : ℚ), ← Nat.cast_lt (α := ℚ)]
    simp only [Nat.cast_mul, Nat.cast_pow, Nat.cast_ofNat]
  generalize (num.log2 : ℤ) - den.log2 = l at *
  dsimp only
  by_cases hv : (num : ℚ) / den < 2 ^ l
  · rw [if_pos (hexact.mpr hv)]
    refine ⟨hv.trans_le (zpow_le_zpow_right₀ one_le_two (by omega)), by omega, ?_⟩
    rcases le_total (l - 53) (-1074) with h | h
    · exact .inr (by omega)
    · rw [max_eq_left h, show l - 53 + 52 = l - 1 by omega]
      exact .inl hlow
  · rw [if_neg (mt hexact.mp hv)]
    refine ⟨hhigh.trans_le (zpow_le_zpow_right₀ one_le_two (by omega)), by omega, ?_⟩
    rcases le_total (l - 53 + 1) (-1074) with h | h
    · exact .inr (by omega)
    · rw [max_eq_left h, show l - 53 + 1 + 52 = l by omega]
      exact .inl (not_lt.mp hv)

/-! ### Rounding at a place -/

/-- A quotient within a half of `k` is rounded to `k`; at a half only if `k` is even. -/
theorem roundEven_eq {num den k : ℕ} (hlow : 2 * k * den ≤ 2 * num + den)
    (hhigh : 2 * num ≤ (2 * k + 1) * den)
    (htie : 2 * k * den = 2 * num + den ∨ 2 * num = (2 * k + 1) * den → k % 2 = 0)
    (hden : 0 < den) : roundEven num den = k := by
  have hdiv := Nat.div_add_mod num den
  have hmod := Nat.mod_lt num hden
  unfold roundEven
  dsimp only
  generalize num / den = q at *
  generalize num % den = r at *
  subst hdiv
  have hle : k ≤ q + 1 := by
    by_contra h
    have : (q + 2) * den ≤ k * den := Nat.mul_le_mul_right den (by omega)
    nlinarith
  have hge : q ≤ k := by
    by_contra h
    have : (k + 1) * den ≤ q * den := Nat.mul_le_mul_right den (by omega)
    nlinarith
  rcases (by omega : k = q ∨ k = q + 1) with rfl | rfl
  · have h2 : 2 * r ≤ den := by nlinarith
    rcases h2.lt_or_eq with h | h
    · rw [if_pos h]
    · have := htie (.inr (by linarith))
      rw [if_neg (by omega), if_neg (by omega)]
      omega
  · have h2 : den ≤ 2 * r := by nlinarith
    rcases h2.lt_or_eq with h | h
    · rw [if_neg (by omega), if_pos h]
    · have := htie (.inl (by linarith))
      rw [if_neg (by omega), if_neg (by omega)]
      omega

theorem scaled_eq_div (n : ℕ) (p : ℤ) :
    scaled n (p - 1) = ((n * (powerOfTwo p).1 : ℕ) : ℚ) / (2 * (powerOfTwo p).2 : ℕ) := by
  rw [scaled, zpow_sub_one₀ two_ne_zero, ← powerOfTwo_ratio p]
  push_cast
  field_simp

theorem roundEven_of_scaled {num den k : ℕ} {p : ℤ} (hden : 0 < den) (hk : 0 < k)
    (hlow : scaled (2 * k - 1) (p - 1) ≤ (num : ℚ) / den)
    (hhigh : (num : ℚ) / den ≤ scaled (2 * k + 1) (p - 1))
    (htie : (num : ℚ) / den = scaled (2 * k - 1) (p - 1) ∨
      (num : ℚ) / den = scaled (2 * k + 1) (p - 1) → k % 2 = 0) :
    roundEven (num * (powerOfTwo p).2) (den * (powerOfTwo p).1) = k := by
  obtain ⟨hup, hdown⟩ := powerOfTwo_pos p
  obtain ⟨j, rfl⟩ : ∃ j, k = j + 1 := ⟨k - 1, by omega⟩
  rw [show 2 * (j + 1) - 1 = 2 * j + 1 by omega] at hlow htie
  rw [scaled_eq_div] at hlow hhigh
  rw [scaled_eq_div, scaled_eq_div] at htie
  generalize powerOfTwo p = power at *
  obtain ⟨up, down⟩ := power
  have hden' : (0 : ℚ) < den := Nat.cast_pos.mpr hden
  have hdown' : (0 : ℚ) < (2 * down : ℕ) := Nat.cast_pos.mpr (by simpa using hdown)
  rw [div_le_div_iff₀ hdown' hden'] at hlow
  rw [div_le_div_iff₀ hden' hdown'] at hhigh
  rw [div_eq_div_iff hden'.ne' hdown'.ne', div_eq_div_iff hden'.ne' hdown'.ne'] at htie
  norm_cast at hlow hhigh htie
  refine roundEven_eq ?_ ?_ ?_ (Nat.mul_pos hden hup)
  · dsimp only at *
    linarith
  · dsimp only at *
    linarith
  · rintro (h | h)
    · exact htie (.inl (by dsimp only at *; linarith))
    · exact htie (.inr (by dsimp only at *; linarith))

/-! ### The reals around a number -/

/-- How far the range of a number reaches below it, in quarters of its last place. -/
def Binary.below (b : Binary) : ℕ :=
  if b.mantissa = 2 ^ 52 ∧ b.exponent ≠ -1074 then 1 else 2

theorem Binary.below_le (b : Binary) : b.below ≤ 2 := by
  unfold Binary.below
  split <;> decide

/-- No number is nearer to `v` than `b`; of two that are as near, `b` is the even one. -/
structure Binary.Covers (b : Binary) (v : ℚ) : Prop where
  low : scaled (4 * b.mantissa - b.below) (b.exponent - 2) ≤ v
  high : v ≤ scaled (4 * b.mantissa + 2) (b.exponent - 2)
  tie : v = scaled (4 * b.mantissa - b.below) (b.exponent - 2) ∨
    v = scaled (4 * b.mantissa + 2) (b.exponent - 2) → b.mantissa % 2 = 0

theorem scaled_two_mul (m : ℕ) (e : ℤ) : scaled (2 * m) (e - 1) = scaled m e := by
  have h := scaled_add m 1 (e - 1)
  rw [show e - 1 + (1 : ℕ) = e by push_cast; ring, pow_one, mul_comm] at h
  exact h.symm

theorem scaled_pow (k : ℕ) (e : ℤ) : scaled (2 ^ k) e = 2 ^ (e + k) := by
  rw [scaled, zpow_add₀ two_ne_zero, zpow_natCast, mul_comm]
  push_cast
  rfl

theorem nearestBits_of_isPlace {num den k : ℕ} {p : ℤ} (hnum : 0 < num) (hden : 0 < den)
    (hp : IsPlace ((num : ℚ) / den) p)
    (hk : roundEven (num * (powerOfTwo p).2) (den * (powerOfTwo p).1) = k) :
    nearestBits num den = min ((p + 1074).toNat * 2 ^ 52 + k) (2047 * 2 ^ 52) := by
  obtain rfl := (isPlace_lastPlace hnum hden).unique hp
  unfold nearestBits
  simp only [Nat.pow_eq, hk]

section

variable {num den m : ℕ} {e : ℤ} {negative : Bool}

theorem Binary.Covers.num_pos (h : Binary.Covers ⟨negative, m, e⟩ ((num : ℚ) / den)) (hm : 0 < m) :
    0 < num := by
  have hbelow := Binary.below_le ⟨negative, m, e⟩
  have hpos : (0 : ℚ) < num / den := (scaled_pos (by dsimp only; omega) _).trans_le h.low
  by_contra hzero
  rw [Nat.eq_zero_of_not_pos hzero] at hpos
  simp at hpos

/-- A fraction that has its last place in common with the number. -/
theorem nearestBits_of_same_place (hden : 0 < den) (hm : 0 < m) (hb : Canonical m e) (he : e ≤ 971)
    (h : Binary.Covers ⟨negative, m, e⟩ ((num : ℚ) / den)) (hp : IsPlace ((num : ℚ) / den) e) :
    nearestBits num den = (e + 1074).toNat * 2 ^ 52 + m := by
  have hnum := h.num_pos hm
  obtain ⟨hlow, hhigh, htie⟩ := h
  have hlt := hb.lt
  have hmin := hb.low
  have hbelow := Binary.below_le ⟨negative, m, e⟩
  dsimp only at *
  have hquarter (n : ℕ) : scaled n (e - 1) = scaled (2 * n) (e - 2) := by
    rw [← scaled_two_mul n, show e - 1 - 1 = e - 2 by ring]
  have hround : roundEven (num * (powerOfTwo e).2) (den * (powerOfTwo e).1) = m := by
    refine roundEven_of_scaled hden hm ?_ ?_ ?_
    · rw [hquarter]
      exact ((scaled_le_scaled_iff _).mpr (by omega)).trans hlow
    · rw [hquarter]
      exact hhigh.trans_eq (by ring_nf)
    · rw [hquarter, hquarter, show 2 * (2 * m + 1) = 4 * m + 2 by ring]
      rintro (heq | heq)
      · refine htie (.inl (le_antisymm (heq.trans_le ?_) hlow))
        exact (scaled_le_scaled_iff _).mpr (by omega)
      · exact htie (.inr heq)
  rw [nearestBits_of_isPlace hnum hden hp hround]
  omega

/-- A fraction just below a power of two, where the places are half as wide. -/
theorem nearestBits_of_lt_power (hden : 0 < den) (hb : Canonical m e) (he : e ≤ 971)
    (h : Binary.Covers ⟨negative, m, e⟩ ((num : ℚ) / den)) (hnormal : e ≠ -1074)
    (hsmall : (num : ℚ) / den < 2 ^ (e + 52)) :
    nearestBits num den = (e + 1074).toNat * 2 ^ 52 + m := by
  have hfull := hb.full.resolve_right hnormal
  have hnum := h.num_pos (by omega)
  obtain ⟨hlow, -, -⟩ := h
  have hmin := hb.low
  have hbelow := Binary.below_le ⟨negative, m, e⟩
  dsimp only at *
  have hplace : e - 2 + (54 : ℕ) = e + 52 := by push_cast; ring
  rw [← hplace, ← scaled_pow] at hsmall
  have hquarters := (scaled_strictMono _).lt_iff_lt.mp (hlow.trans_lt hsmall)
  obtain rfl : m = 2 ^ 52 := by omega
  have hone : Binary.below ⟨negative, 2 ^ 52, e⟩ = 1 := if_pos ⟨rfl, hnormal⟩
  rw [hone] at hlow
  have hp : IsPlace ((num : ℚ) / den) (e - 1) := by
    refine ⟨?_, by omega, .inl ?_⟩
    · rw [show e - 1 + 53 = e - 2 + (54 : ℕ) by push_cast; ring, ← scaled_pow]
      exact hsmall
    · rw [show e - 1 + 52 = e - 2 + (53 : ℕ) by push_cast; ring, ← scaled_pow]
      exact ((scaled_le_scaled_iff _).mpr (by norm_num)).trans hlow
  have hround : roundEven (num * (powerOfTwo (e - 1)).2) (den * (powerOfTwo (e - 1)).1)
      = 2 ^ 53 := by
    refine roundEven_of_scaled hden (by norm_num) ?_ ?_ (fun _ => by norm_num)
    · rw [show e - 1 - 1 = e - 2 by ring]
      exact hlow
    · rw [show e - 1 - 1 = e - 2 by ring]
      exact hsmall.le.trans ((scaled_le_scaled_iff _).mpr (by norm_num))
  rw [nearestBits_of_isPlace hnum hden hp hround]
  omega

/-- A number is the nearest to what it covers. -/
theorem nearestBits_of_covers (hden : 0 < den) (hm : 0 < m) (hb : Canonical m e) (he : e ≤ 971)
    (h : Binary.Covers ⟨negative, m, e⟩ ((num : ℚ) / den)) :
    nearestBits num den = (e + 1074).toNat * 2 ^ 52 + m := by
  have hlt := hb.lt
  have hup : (num : ℚ) / den < 2 ^ (e + 53) := by
    rw [show e + 53 = e - 2 + (55 : ℕ) by push_cast; ring, ← scaled_pow]
    exact h.high.trans_lt (scaled_strictMono _ (by dsimp only; omega))
  by_cases hplace : 2 ^ (e + 52) ≤ (num : ℚ) / den ∨ e = -1074
  · exact nearestBits_of_same_place hden hm hb he h ⟨hup, hb.low, hplace⟩
  · obtain ⟨hsmall, hnormal⟩ := not_or.mp hplace
    exact nearestBits_of_lt_power hden hb he h hnormal (not_le.mp hsmall)

end

/-! ### Numbers by their bits -/

/-- The bits of a number without its sign. -/
def Binary.bits (b : Binary) : ℕ :=
  (b.exponent + 1074).toNat * 2 ^ 52 + b.mantissa

/-- The bits of a number of either sign. -/
def signedBits (negative : Bool) (bits : ℕ) : ℕ :=
  if negative then 2 ^ 63 + bits else bits

theorem eq_of_toBits {x : Float} {negative : Bool} {bits : ℕ}
    (h : x.toBits.toNat = signedBits negative bits) :
    Float.ofBits (UInt64.ofNat (if negative then Nat.pow 2 63 + bits else bits)) = x := by
  have hbits : UInt64.ofNat (signedBits negative bits) = x.toBits := by
    rw [← h, UInt64.ofNat_toNat]
  exact (congrArg Float.ofBits hbits).trans (Float.ofBits_toBits x)

structure Binary.IsOf (b : Binary) (x : Float) : Prop where
  canonical : Canonical b.mantissa b.exponent
  le : b.exponent ≤ 971
  toBits : x.toBits.toNat = signedBits b.negative b.bits

theorem isOf_of_classify {x : Float} {b : Binary} (h : classify x = .finite b) : b.IsOf x := by
  have hlt : x.toBits.toNat < 2 ^ 64 := x.toBits.toNat_lt
  unfold classify at h
  dsimp only at h
  generalize hbits : x.toBits.toNat = bits at *
  simp only [Nat.pow_eq] at h
  have hsplit : bits = signedBits (decide (2 ^ 63 ≤ bits))
      (bits / 2 ^ 52 % 2 ^ 11 * 2 ^ 52 + bits % 2 ^ 52) := by
    unfold signedBits
    split
    · next hneg => have := of_decide_eq_true hneg; omega
    · next hpos => have := of_decide_eq_false (Bool.eq_false_iff.mpr hpos); omega
  have hscale : bits / 2 ^ 52 % 2 ^ 11 < 2 ^ 11 := Nat.mod_lt _ (by norm_num)
  have hfraction : bits % 2 ^ 52 < 2 ^ 52 := Nat.mod_lt _ (by norm_num)
  generalize bits / 2 ^ 52 % 2 ^ 11 = scale at *
  generalize bits % 2 ^ 52 = fraction at *
  generalize decide (2 ^ 63 ≤ bits) = negative at *
  split at h
  · split at h <;> cases h
  · next hmax =>
    split at h
    · next hmin =>
      obtain rfl := Class.finite.inj h
      refine ⟨⟨hfraction.trans (by norm_num), le_rfl, .inr rfl⟩, by norm_num, ?_⟩
      rw [hbits, hsplit, hmin]
      rfl
    · next hmin =>
      obtain rfl := Class.finite.inj h
      have hplace : ((scale : ℤ) - 1075 + 1074).toNat = scale - 1 := by omega
      have hfull : scale * 2 ^ 52 + fraction = (scale - 1) * 2 ^ 52 + (fraction + 2 ^ 52) := by
        omega
      refine ⟨⟨?_, ?_, .inl (Nat.le_add_left _ _)⟩, ?_, ?_⟩
      · show fraction + 2 ^ 52 < 2 ^ 53
        omega
      · show -1074 ≤ (scale : ℤ) - 1075
        omega
      · show (scale : ℤ) - 1075 ≤ 971
        omega
      · rw [hbits, hsplit, hfull, ← hplace]
        rfl

/-- A number is the nearest to whatever its range covers. -/
theorem nearest_of_covers {x : Float} {b : Binary} {num den : ℕ} (h : classify x = .finite b)
    (hm : 0 < b.mantissa) (hden : 0 < den) (hcovers : b.Covers ((num : ℚ) / den)) :
    nearest b.negative num den = x := by
  have hof := isOf_of_classify h
  have hnum : num ≠ 0 := by
    rintro rfl
    refine absurd hcovers.low (not_le.mpr ?_)
    rw [Nat.cast_zero, zero_div]
    refine scaled_pos ?_ _
    have := b.below_le
    omega
  unfold nearest
  rw [if_neg hnum, nearestBits_of_covers hden hm hof.canonical hof.le hcovers]
  exact eq_of_toBits hof.toBits

theorem nearest_zero {x : Float} {b : Binary} (h : classify x = .finite b) (hm : b.mantissa = 0)
    (den : ℕ) : nearest b.negative 0 den = x := by
  have hof := isOf_of_classify h
  have hzero : b.bits = 0 := by
    have hlow : b.exponent = -1074 := hof.canonical.full.resolve_left (by omega)
    unfold Binary.bits
    rw [hlow, hm]
    rfl
  unfold nearest
  rw [if_pos rfl]
  exact eq_of_toBits (hzero ▸ hof.toBits)

/-! ### What is not finite -/

/-- A number is packed from what it is made of. -/
theorem pack_parts (x : Float) : .ofModel (.pack (parts x)) = x := by
  have hbits : UnpackedFloat.pack Format.binary64 (parts x) = x.toModel.toBits.toBitVec := by
    refine (Float.Model.UnpackedFloat.pack_unpack _).trans (ite_eq_right_iff.mpr fun hnan => ?_)
    obtain ⟨hmax, hfraction⟩ := of_decide_eq_true hnan
    exact (x.toModel.valid.eq_packedNaN hmax hfraction).symm
  have hmodel : Float.Model.pack (parts x) = x.toModel := by
    unfold Float.Model.pack
    simp only [hbits]
  rw [hmodel]

theorem infinity_of_classify {x : Float} {negative : Bool} (h : classify x = .infinite negative) :
    infinity negative = x := by
  have hlt : x.toBits.toNat < 2 ^ 64 := x.toBits.toNat_lt
  have hbits : x.toBits.toNat = signedBits negative (2047 * 2 ^ 52) := by
    unfold classify at h
    dsimp only at h
    split at h
    · next hmax =>
      split at h
      · next hzero =>
        obtain rfl := Class.infinite.inj h
        simp only [Nat.pow_eq] at *
        unfold signedBits
        split
        · next hneg => have := of_decide_eq_true hneg; omega
        · next hpos => have := of_decide_eq_false (Bool.eq_false_iff.mpr hpos); omega
      · cases h
    · split at h <;> cases h
  have hinfinity : infinity negative
      = Float.ofBits (UInt64.ofNat (signedBits negative (2047 * 2 ^ 52))) := by
    cases negative <;> decide +kernel
  exact hinfinity.trans (eq_of_toBits hbits)

/-- Only one number is undefined. -/
theorem undefined_of_classify {x : Float} (h : classify x = .undefined) : 0.0 / 0.0 = x := by
  have hnan : parts x = .notANumber := by
    rw [classify_eq] at h
    cases hx : parts x <;> rw [hx] at h <;> first | rfl | cases h
  have hquotient : (0.0 / 0.0 : Float) = .ofModel (.pack .notANumber) := by decide +kernel
  rw [hquotient, ← hnan, pack_parts]

end Sortie.Decimal
