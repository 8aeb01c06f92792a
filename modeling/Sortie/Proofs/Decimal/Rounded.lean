import Sortie.Proofs.Decimal.Faithful
import Sortie.Proofs.Decimal.Shortest

/-!
# Products and quotients are rounded to the nearest number

With the half of its last place a mantissa tells which of its two neighbours is nearer (`Splits`).
So what a product or a quotient is rounded to covers the exact result (`covers_rounded`).  Two
numbers never cover the same value (`Binary.Covers.unique`), so a number that covers the exact
product or quotient is the rounded one (`Reads.mul_eq`, `Reads.div_eq`).
-/

namespace Sortie.Decimal

open Float.Model (UnpackedFloat Format)
open Float.Model.UnpackedFloat

/-! ### Mantissas with the half of their last place -/

/-- A mantissa in halves of its last place. -/
def halves (em : ExtendedMantissa) : ℕ :=
  2 * em.mantissa + em.roundBit.toNat

/-- The halves are those of `q` rounded down, and the last bit tells whether anything is lost. -/
structure Splits (em : ExtendedMantissa) (e : ℤ) (q : ℚ) : Prop where
  le : scaled (halves em) (e - 1) ≤ q
  lt : q < scaled (halves em + 1) (e - 1)
  clear_iff : q = scaled (halves em) (e - 1) ↔ em.stickyBit = false

theorem halves_shiftRightOne (em : ExtendedMantissa) : halves em.shiftRightOne = em.mantissa := by
  have hbit : (em.mantissa % 2 != 0).toNat = em.mantissa % 2 := by
    rcases Nat.mod_two_eq_zero_or_one em.mantissa with h | h <;> rw [h] <;> rfl
  show 2 * (em.mantissa / 2) + (em.mantissa % 2 != 0).toNat = em.mantissa
  omega

theorem Splits.shiftRightOne {em : ExtendedMantissa} {e : ℤ} {q : ℚ} (h : Splits em e q) :
    Splits em.shiftRightOne (e + 1) q := by
  obtain ⟨m, r, s⟩ := em
  obtain ⟨hle, hlt, hclear⟩ := h
  have hbit : r.toNat ≤ 1 := r.toNat_le
  simp only [halves] at hle hlt hclear
  refine ⟨?_, ?_, ?_⟩ <;> rw [add_sub_cancel_right, halves_shiftRightOne] <;>
    rw [← scaled_two_mul]
  · exact ((scaled_le_scaled_iff _).mpr (Nat.le_add_right _ _)).trans hle
  · exact hlt.trans_le ((scaled_le_scaled_iff _).mpr (by dsimp only; omega))
  · have heven : q = scaled (2 * m) (e - 1) ↔ r = false ∧ q = scaled (2 * m + r.toNat) (e - 1) := by
      constructor
      · intro hq
        have hr : 2 * m + r.toNat ≤ 2 * m := (scaled_le_scaled_iff _).mp (hle.trans hq.le)
        obtain rfl : r = false := Bool.toNat_eq_zero.mp (by omega)
        exact ⟨rfl, hq⟩
      · rintro ⟨rfl, hq⟩
        exact hq
    show q = scaled (2 * m) (e - 1) ↔ (r || s) = false
    rw [heven, hclear, Bool.or_eq_false_iff]

theorem Splits.shiftRight {em : ExtendedMantissa} {e : ℤ} {q : ℚ} (h : Splits em e q) (n : ℕ) :
    Splits (em >>> n) (e + n) q := by
  show Splits (n.repeat ExtendedMantissa.shiftRightOne em) (e + n) q
  induction n with
  | zero => simpa [Nat.repeat] using h
  | succ n ih =>
    have hs := ih.shiftRightOne
    rwa [Nat.repeat, Nat.cast_succ, ← add_assoc]

theorem splits_exact (m : ℕ) (e : ℤ) : Splits (.ofMantissaAndAccuracy m .exact) e (scaled m e) := by
  have hhalves : halves (.ofMantissaAndAccuracy m .exact) = 2 * m := rfl
  refine ⟨?_, ?_, ?_⟩ <;> rw [hhalves]
  · exact (scaled_two_mul m e).le
  · rw [← scaled_two_mul]
    exact scaled_strictMono _ (Nat.lt_succ_self _)
  · exact iff_of_true (scaled_two_mul m e).symm rfl

/-- The half of the last place of a quotient is told by its remainder. -/
theorem halves_fraction (m : ℕ) {n : ℕ} (hn : 0 < n) :
    halves (.ofMantissaAndAccuracy (m / n) (accuracyOfFraction (m % n) n)) = 2 * m / n ∧
      ((ExtendedMantissa.ofMantissaAndAccuracy (m / n)
        (accuracyOfFraction (m % n) n)).stickyBit = false ↔ 2 * m % n = 0) := by
  have hmod := Nat.mod_lt m hn
  have hdiv : 2 * m = n * (2 * (m / n)) + 2 * (m % n) := by
    conv_lhs => rw [← Nat.div_add_mod m n]
    ring
  rw [hdiv, Nat.mul_add_div hn, Nat.mul_add_mod]
  generalize m / n = q
  generalize m % n = r at *
  unfold accuracyOfFraction
  split
  · next hr => simp [hr, halves, ExtendedMantissa.ofMantissaAndAccuracy]
  · next hr =>
    rcases lt_trichotomy (2 * r) n with h | h | h
    · rw [compare_lt_iff_lt.mpr h, Nat.div_eq_of_lt h, Nat.mod_eq_of_lt h]
      simp [halves, ExtendedMantissa.ofMantissaAndAccuracy, hr]
    · rw [compare_eq_iff_eq.mpr h, h, Nat.div_self hn, Nat.mod_self]
      simp [halves, ExtendedMantissa.ofMantissaAndAccuracy]
    · have hone : 2 * r / n = 1 := Nat.div_eq_of_lt_le (by omega) (by omega)
      have hlost : 2 * r % n = 2 * r - n := by
        rw [Nat.mod_eq_sub_mod h.le, Nat.mod_eq_of_lt (by omega)]
      rw [compare_gt_iff_gt.mpr h, hone, hlost]
      simp only [halves, ExtendedMantissa.ofMantissaAndAccuracy, Bool.toNat_true, true_and]
      refine iff_of_false Bool.noConfusion ?_
      omega

theorem splits_fraction (m : ℕ) {n : ℕ} (hn : 0 < n) (e : ℤ) :
    Splits (.ofMantissaAndAccuracy (m / n) (accuracyOfFraction (m % n) n)) e
      ((m : ℚ) / n * 2 ^ e) := by
  obtain ⟨hhalves, hsticky⟩ := halves_fraction m hn
  obtain ⟨hle, hlt, hclear⟩ := scaled_floor (2 * m) hn (e - 1)
  have hvalue : ((2 * m : ℕ) : ℚ) / n * 2 ^ (e - 1) = (m : ℚ) / n * 2 ^ e := by
    rw [zpow_sub_one₀ two_ne_zero]
    push_cast
    field_simp
  rw [hvalue] at hle hlt hclear
  refine ⟨?_, ?_, ?_⟩ <;> rw [hhalves]
  · exact hle
  · exact hlt
  · rw [hclear, hsticky]

/-! ### What a mantissa is rounded to -/

/-- A mantissa is rounded to a neighbour not further than a half, at a half to the even one. -/
theorem Splits.near {em : ExtendedMantissa} {e : ℤ} {q : ℚ} (h : Splits em e q) :
    scaled (2 * em.roundedMantissa - 1) (e - 1) ≤ q ∧
      q ≤ scaled (2 * em.roundedMantissa + 1) (e - 1) ∧
      (q = scaled (2 * em.roundedMantissa - 1) (e - 1) ∨
        q = scaled (2 * em.roundedMantissa + 1) (e - 1) → em.roundedMantissa % 2 = 0) := by
  obtain ⟨m, r, s⟩ := em
  obtain ⟨hle, hlt, hclear⟩ := h
  have hmono {i j : ℕ} (hij : i ≤ j) : scaled i (e - 1) ≤ scaled j (e - 1) :=
    (scaled_le_scaled_iff _).mpr hij
  cases r with
  | false =>
    have hrounded : ExtendedMantissa.roundedMantissa ⟨m, false, s⟩ = m := by cases s <;> rfl
    rw [hrounded]
    refine ⟨(hmono (Nat.sub_le _ _)).trans hle, hlt.le, ?_⟩
    rintro (heq | heq)
    · have : 2 * m ≤ 2 * m - 1 := (scaled_le_scaled_iff _).mp (hle.trans heq.le)
      omega
    · exact absurd heq hlt.ne
  | true =>
    cases s with
    | false =>
      have hrounded : ExtendedMantissa.roundedMantissa ⟨m, true, false⟩ = m + m % 2 := rfl
      have heq : q = scaled (2 * m + 1) (e - 1) := hclear.mpr rfl
      rw [hrounded, heq]
      exact ⟨hmono (by omega), hmono (by omega), fun _ => by omega⟩
    | true =>
      have hrounded : ExtendedMantissa.roundedMantissa ⟨m, true, true⟩ = m + 1 := rfl
      have hnext : q < scaled (2 * (m + 1) + 1) (e - 1) := hlt.trans_le (hmono (Nat.le_succ _))
      rw [hrounded]
      refine ⟨hle, hnext.le, ?_⟩
      rintro (heq | heq)
      · exact absurd (hclear.mp heq) Bool.noConfusion
      · exact absurd heq hnext.ne

/-- A number covers what its mantissa is rounded from. -/
theorem covers_rounded {em : ExtendedMantissa} {e : ℤ} {q : ℚ} (hc : Canonical em.mantissa e)
    (h : Splits em e q) (negative : Bool) :
    Binary.Covers ⟨negative, em.roundedMantissa / 2 ^ surplus em.roundedMantissa e,
      e + surplus em.roundedMantissa e⟩ q := by
  have hlt := hc.lt
  have hrounded := roundedMantissa_cases em
  obtain ⟨hlow, hhigh, htie⟩ := h.near
  have hdown : scaled (2 * em.mantissa) (e - 1) ≤ q :=
    ((scaled_le_scaled_iff _).mpr (Nat.le_add_right _ _)).trans h.le
  generalize em.roundedMantissa = k at *
  have hquarter (n : ℕ) : scaled n (e - 1) = scaled (2 * n) (e - 2) := by
    rw [← scaled_two_mul n, show e - 1 - 1 = e - 2 by ring]
  by_cases hk : k < 2 ^ 53
  · rw [surplus_of_lt hk hc.low, pow_zero, Nat.div_one, Nat.cast_zero, add_zero]
    rw [hquarter, show 2 * (2 * k + 1) = 4 * k + 2 by ring] at hhigh
    rw [hquarter, hquarter, show 2 * (2 * k + 1) = 4 * k + 2 by ring] at htie
    rw [hquarter] at hlow hdown
    by_cases hfew : k = 2 ^ 52 ∧ e ≠ -1074
    · -- No mantissa is rounded up to the least with all its places.
      have hfull := hc.full.resolve_right hfew.2
      have hone : Binary.below ⟨negative, k, e⟩ = 1 := if_pos hfew
      have hlt : scaled (4 * k - 1) (e - 2) < q :=
        (scaled_strictMono _ (by omega)).trans_le hdown
      constructor
      · rw [hone]
        exact hlt.le
      · exact hhigh
      · rw [hone]
        rintro (heq | heq)
        · exact absurd heq hlt.ne'
        · exact htie (.inr heq)
    · have htwo : Binary.below ⟨negative, k, e⟩ = 2 := if_neg hfew
      rw [show 2 * (2 * k - 1) = 4 * k - 2 by omega] at hlow htie
      exact ⟨htwo.symm ▸ hlow, hhigh, htwo.symm ▸ htie⟩
  · -- All places are full, so the next number is a power of two.
    obtain rfl : k = 2 ^ 53 := by omega
    rw [surplus_two_pow hc.low, show 2 ^ 53 / 2 ^ 1 = 2 ^ 52 by norm_num, Nat.cast_one]
    have hlow' := hc.low
    have hone : Binary.below ⟨negative, 2 ^ 52, e + 1⟩ = 1 := if_pos ⟨rfl, by dsimp only; omega⟩
    have hplace : e + 1 - 2 = e - 1 := by ring
    refine ⟨?_, ?_, fun _ => by norm_num⟩
    · rw [hone, hplace]
      exact ((scaled_le_scaled_iff _).mpr (by norm_num)).trans hlow
    · rw [hplace]
      exact hhigh.trans ((scaled_le_scaled_iff _).mpr (by norm_num))

/-! ### Numbers that cover the same value -/

namespace Binary.Covers

variable {b c : Binary} {v : ℚ}

/-- The range of a number ends where that of a greater one begins, and at that end only one of the
two is even. -/
theorem not_scaled_lt (hb : Canonical b.mantissa b.exponent) (hc : Canonical c.mantissa c.exponent)
    (h : b.Covers v) (h' : c.Covers v) :
    ¬ scaled b.mantissa b.exponent < scaled c.mantissa c.exponent := by
  intro hlt
  have hle : b.exponent ≤ c.exponent :=
    not_lt.mp fun hk => absurd (hc.scaled_lt hb hk) (not_lt.mpr hlt.le)
  have hbelow := c.below_le
  obtain ⟨hlow, -, htie'⟩ := h'
  obtain ⟨-, hhigh, htie⟩ := h
  obtain ⟨negative, m, e⟩ := b
  obtain ⟨negative', n, k⟩ := c
  dsimp only at *
  rcases hle.eq_or_lt with rfl | hk
  · have hmn : m < n := (scaled_strictMono e).lt_iff_lt.mp hlt
    have hends : 4 * n - Binary.below ⟨negative', n, e⟩ ≤ 4 * m + 2 :=
      (scaled_le_scaled_iff _).mp (hlow.trans hhigh)
    have hend : 4 * n - Binary.below ⟨negative', n, e⟩ = 4 * m + 2 := by omega
    rw [hend] at hlow htie'
    have heq := le_antisymm hhigh hlow
    have := htie (.inr heq)
    have := htie' (.inl heq)
    omega
  · obtain ⟨j, rfl⟩ : ∃ j : ℕ, k = e + (j + 1 : ℕ) := ⟨(k - e - 1).toNat, by omega⟩
    have hmin := hb.low
    have hfull : 2 ^ 52 ≤ n := hc.full.resolve_right (by omega)
    have hquarters : 2 ^ 54 - 1 ≤ 4 * n - Binary.below ⟨negative', n, e + (j + 1 : ℕ)⟩ := by
      by_cases hn : n = 2 ^ 52
      · have hone : Binary.below ⟨negative', n, e + (j + 1 : ℕ)⟩ = 1 :=
          if_pos ⟨hn, by dsimp only; omega⟩
        omega
      · omega
    generalize 4 * n - Binary.below ⟨negative', n, e + (j + 1 : ℕ)⟩ = l at *
    have hdouble : 2 ^ 55 - 2 ≤ l * 2 ^ (j + 1) := by
      have hpow : 2 ^ 1 ≤ 2 ^ (j + 1) := Nat.pow_le_pow_right (by norm_num) (Nat.le_add_left 1 j)
      have : l * 2 ^ 1 ≤ l * 2 ^ (j + 1) := Nat.mul_le_mul_left l hpow
      omega
    rw [show e + (j + 1 : ℕ) - 2 = e - 2 + (j + 1 : ℕ) by ring, scaled_add] at hlow
    have hends := (scaled_le_scaled_iff _).mp (hlow.trans hhigh)
    have hlt := hb.lt
    have heq : l * 2 ^ (j + 1) = 4 * m + 2 := by omega
    have := htie (.inr (le_antisymm hhigh (heq ▸ hlow)))
    omega

/-- No two numbers cover the same value. -/
theorem unique (hb : Canonical b.mantissa b.exponent) (hc : Canonical c.mantissa c.exponent)
    (h : b.Covers v) (h' : c.Covers v) :
    b.mantissa = c.mantissa ∧ b.exponent = c.exponent := by
  have heq : scaled b.mantissa b.exponent = scaled c.mantissa c.exponent :=
    le_antisymm (not_lt.mp (not_scaled_lt hc hb h' h)) (not_lt.mp (not_scaled_lt hb hc h h'))
  have hcompare := hb.compare_scaled hc
  rw [compare_eq_iff_eq.mpr heq, Ordering.then_eq_eq] at hcompare
  exact ⟨compare_eq_iff_eq.mp hcompare.2, compare_eq_iff_eq.mp hcompare.1⟩

end Binary.Covers

/-! ### Rounding to the number that covers -/

theorem parts_of_classify {x : Float} {b : Binary} (h : classify x = .finite b)
    (hsign : b.negative = false) (hm : 0 < b.mantissa) :
    parts x = .finite .positive b.mantissa b.exponent hm := by
  rw [classify_eq] at h
  cases hx : parts x with
  | notANumber | infinity s => rw [hx] at h; cases h
  | zero s =>
    rw [hx] at h
    obtain rfl := Class.finite.inj h
    cases hm
  | finite s m e hpos =>
    rw [hx] at h
    obtain rfl := Class.finite.inj h
    cases s with
    | positive => rfl
    | negative => cases hsign

/-- **What is rounded is the number that covers it.** -/
theorem pack_eq_of_covers {m : ℕ} {e : ℤ} {acc : Accuracy} {q : ℚ} {z : Float} {b : Binary}
    (hm : 2 ^ 52 ≤ m ∨ e ≤ -1074) (hq : Splits (.ofMantissaAndAccuracy m acc) e q)
    (hz : classify z = .finite b) (hsign : b.negative = false) (hpos : 0 < b.mantissa)
    (hcovers : b.Covers q) :
    .ofModel (.pack (roundWithAccuracy Format.binary64 .positive m e acc)) = z := by
  let em := ExtendedMantissa.ofMantissaAndAccuracy m acc >>> surplus m e
  let r := em.roundedMantissa
  let n := r / 2 ^ surplus r (e + surplus m e)
  let k := e + surplus m e + surplus r (e + surplus m e)
  have hfirst : Canonical em.mantissa (e + surplus m e) := canonical_shiftRight hm acc
  have hround := roundWithAccuracy_eq acc .positive (m := m) (e := e) (r := r) (n := n) (k := k)
    rfl rfl rfl
  have hparts := parts_of_classify hz hsign hpos
  obtain ⟨hmantissa, hexponent⟩ := Binary.Covers.unique (b := ⟨false, n, k⟩) hfirst.rounded
    (canonical_of_parts hparts).1 (covers_rounded hfirst (hq.shiftRight (surplus m e)) false) hcovers
  dsimp only at hmantissa hexponent
  have hn : 0 < n := hmantissa ▸ hpos
  have hsame : roundWithAccuracy Format.binary64 .positive m e acc = parts z := by
    rw [hround.2 hn, hparts]
    congr 1
  rw [hsame, pack_parts]

theorem Reads.mul_eq {x y z : Float} {v w : ℚ} {b : Binary} (hx : Reads x v) (hv : 0 < v)
    (hy : Reads y w) (hw : 0 < w) (hz : classify z = .finite b) (hsign : b.negative = false)
    (hpos : 0 < b.mantissa) (hcovers : b.Covers (v * w)) : x * y = z := by
  rw [parts_mul]
  cases hx with
  | zero => exact absurd hv (lt_irrefl 0)
  | @finite m e hm hx =>
    cases hy with
    | zero => exact absurd hw (lt_irrefl 0)
    | @finite n k hn hy =>
      rw [scaled_mul] at hcovers
      rw [hx, hy]
      exact pack_eq_of_covers
        ((canonical_of_parts hx).1.places_mul hm (canonical_of_parts hy).1 hn)
        (splits_exact _ _) hz hsign hpos hcovers

theorem Reads.div_eq {x y z : Float} {v w : ℚ} {b : Binary} (hx : Reads x v) (hv : 0 < v)
    (hy : Reads y w) (hw : 0 < w) (hz : classify z = .finite b) (hsign : b.negative = false)
    (hpos : 0 < b.mantissa) (hcovers : b.Covers (v / w)) : x / y = z := by
  rw [parts_div]
  cases hx with
  | zero => exact absurd hv (lt_irrefl 0)
  | @finite m e hm hx =>
    cases hy with
    | zero => exact absurd hw (lt_irrefl 0)
    | @finite n k hn hy =>
      obtain ⟨a, t, hcore, hvalue, hplaces⟩ := exists_divCore hm hn e k
      rw [hvalue] at hcovers
      rw [hx, hy]
      show Float.ofModel (.pack (roundWithAccuracy Format.binary64 .positive
        (divCore Format.binary64 m e n k).1 (divCore Format.binary64 m e n k).2.1
        (divCore Format.binary64 m e n k).2.2)) = z
      rw [hcore]
      exact pack_eq_of_covers hplaces (splits_fraction a hn t) hz hsign hpos hcovers

/-! ### Fractions that are numbers -/

/-- A mantissa that is not too long is canonical with zeros behind it. -/
theorem exists_canonical_eq {m : ℕ} {e : ℤ} (hpos : 0 < m) (hm : m < 2 ^ 53) (he : -1074 ≤ e) :
    ∃ n k, 0 < n ∧ Canonical n k ∧ k ≤ e ∧ scaled n k = scaled m e := by
  have hlog : m.log2 < 53 := (Nat.log2_lt hpos.ne').mpr hm
  obtain ⟨s, hs⟩ : ∃ s, s = min (52 - m.log2) (e + 1074).toNat := ⟨_, rfl⟩
  refine ⟨m * 2 ^ s, e - s, Nat.mul_pos hpos (by positivity), ⟨?_, by omega, ?_⟩, by omega, ?_⟩
  · calc m * 2 ^ s < 2 ^ (m.log2 + 1) * 2 ^ s :=
          Nat.mul_lt_mul_of_pos_right Nat.lt_log2_self (by positivity)
      _ = 2 ^ (m.log2 + 1 + s) := (pow_add ..).symm
      _ ≤ 2 ^ 53 := Nat.pow_le_pow_right (by norm_num) (by omega)
  · refine or_iff_not_imp_right.mpr fun hlow => ?_
    calc 2 ^ 52 = 2 ^ (m.log2 + s) := by congr 1; omega
      _ = 2 ^ m.log2 * 2 ^ s := pow_add ..
      _ ≤ m * 2 ^ s := Nat.mul_le_mul_right _ (Nat.log2_self_le hpos.ne')
  · rw [← scaled_add, sub_add_cancel]

/-- A fraction that is a number is not rounded. -/
theorem reads_nearest {m num den : ℕ} {e : ℤ} (hpos : 0 < m) (hm : m < 2 ^ 53) (he : -1074 ≤ e)
    (he' : e ≤ 971) (hden : 0 < den) (h : (num : ℚ) / den = scaled m e) :
    Reads (nearest false num den) (scaled m e) := by
  obtain ⟨n, k, hn, hc, hk, heq⟩ := exists_canonical_eq hpos hm he
  have hparts := parts_pack .positive hn hc
  rw [if_pos (hk.trans he')] at hparts
  generalize Float.ofModel (.pack (.finite .positive n k hn)) = x at hparts
  have hclass : classify x = .finite ⟨false, n, k⟩ := by
    rw [classify_eq, hparts]
    rfl
  have hself : Binary.Covers ⟨false, n, k⟩ ((num : ℚ) / den) := by
    rw [h, ← heq]
    exact Binary.covers_self ⟨false, n, k⟩ hn
  have hx : nearest false num den = x :=
    nearest_of_covers (b := ⟨false, n, k⟩) hclass hn hden hself
  rw [hx, ← heq]
  exact .finite hparts

end Sortie.Decimal
