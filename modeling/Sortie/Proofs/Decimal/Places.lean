import Sortie.Proofs.Decimal.Counts
import Sortie.Proofs.Decimal.Faithful
import Sortie.Decimal.Precision

/-!
# Decimal places of a share

A share is rounded to decimal places by way of a power of ten, and comes to `1` at most if that
power is a number (`roundTo_of_inRange`).  Powers of ten are whole numbers or less than a quarter
(`power_cases`): in the one case a product that is at most the power is rounded to at most the
power, and in the other one it is rounded to zero.  A power out of range leaves no number
(`roundTo_of_not_inRange`).
-/

namespace Sortie.Decimal

open Float.Model (UnpackedFloat Format totalExponent)
open Float.Model.UnpackedFloat

/-! ### Whole numbers -/

/-- A count up to `2 ^ 52` reads as itself. -/
theorem reads_ofNat {n : ℕ} (h : n ≤ 2 ^ 52) : Reads (ofNat n) n := by
  rcases Nat.eq_zero_or_pos n with rfl | hpos
  · have hzero : classify (ofNat 0) = .finite ⟨false, 0, -1074⟩ := by decide
    simpa [scaled] using reads_of_classify hzero
  rcases h.lt_or_eq with hlt | rfl
  · have hclass := classify_ofNat hlt hpos.ne'
    obtain ⟨k, hk⟩ : ∃ k, spare n = k + 1 := ⟨spare n - 1, by
      have := log2_add_spare hlt hpos.ne'
      have := (Nat.log2_lt hpos.ne').mpr hlt
      omega⟩
    have hvalue : scaled (n * 2 ^ spare n) (.negSucc (spare n - 1)) = n := by
      rw [hk, Nat.add_sub_cancel, ← scaled_add]
      have hplace : Int.negSucc k + ((k + 1 : ℕ) : ℤ) = 0 := by omega
      rw [hplace]
      simp [scaled]
    exact hvalue ▸ reads_of_classify hclass
  · have hfull : classify (ofNat (2 ^ 52)) = .finite ⟨false, 2 ^ 52, 0⟩ := by decide +kernel
    simpa [scaled] using reads_of_classify hfull

theorem reads_one : Reads 1.0 1 := by
  have hone : classify 1.0 = .finite ⟨false, 2 ^ 52, -52⟩ := by decide +kernel
  have hread := reads_of_classify hone
  norm_num [scaled] at hread
  exact hread

theorem reads_ten : Reads 10.0 10 := by
  have hten : classify 10.0 = .finite ⟨false, 10 * 2 ^ 49, -49⟩ := by decide +kernel
  have hread := reads_of_classify hten
  norm_num [scaled] at hread
  exact hread

theorem reads_quarter : Reads 0.25 (1 / 4) := by
  have hquarter : classify 0.25 = .finite ⟨false, 2 ^ 52, -54⟩ := by decide +kernel
  have hread := reads_of_classify hquarter
  norm_num [scaled] at hread
  exact hread

/-- Numbers from `2 ^ 52` on are whole. -/
theorem Reads.whole_of_le {x : Float} {v : ℚ} (h : Reads x v) (hv : 2 ^ 52 ≤ v) :
    ∃ n : ℕ, v = n := by
  obtain ⟨m, e, hc, -, rfl⟩ := h.exists_canonical
  have he : 0 ≤ e := by
    by_contra hn
    have hlt : scaled m e < scaled (2 ^ 52) 0 := by
      obtain ⟨j, rfl⟩ : ∃ j : ℕ, e = -(j + 1 : ℕ) := ⟨(-e - 1).toNat, by omega⟩
      have hzero : (0 : ℤ) = -(j + 1 : ℕ) + (j + 1 : ℕ) := by omega
      rw [hzero, scaled_add]
      refine scaled_strictMono _ ?_
      have := hc.lt
      have : 1 ≤ 2 ^ j := Nat.one_le_two_pow
      rw [pow_succ]
      omega
    refine absurd hv (not_le.mpr (hlt.trans_eq ?_))
    norm_num [scaled]
  obtain ⟨j, rfl⟩ := Int.eq_ofNat_of_zero_le he
  exact ⟨m * 2 ^ j, by simp [scaled]⟩

/-- A whole number not below `k`, or one that is past all others. -/
def Whole (k : ℕ) (x : Float) : Prop :=
  IsInfinite x ∨ ∃ n : ℕ, k ≤ n ∧ Reads x n

namespace Whole

variable {j k l : ℕ} {x y : Float}

theorem mono (h : Whole k x) (hjk : j ≤ k) : Whole j x :=
  h.imp_right fun ⟨n, hn, hx⟩ => ⟨n, hjk.trans hn, hx⟩

/-- Rounding a whole number leaves one. -/
theorem of_rounds {n : ℕ} (h : Rounds n x) (hl : l ≤ n) (hlimit : l ≤ 2 ^ 52) : Whole l x := by
  rcases le_total n (2 ^ 52) with hn | hn
  · obtain ⟨r, hr, hle⟩ := h.le (reads_ofNat hn) le_rfl
    refine (h.ge (reads_ofNat hn) le_rfl).imp_right fun ⟨r', hr', hge⟩ => ⟨n, hl, ?_⟩
    rw [hr.value_eq hr'] at hle
    exact le_antisymm hle hge ▸ hr'
  · have hbig : ((2 ^ 52 : ℕ) : ℚ) ≤ n := Nat.cast_le.mpr hn
    refine (h.ge (reads_ofNat le_rfl) hbig).imp_right fun ⟨r, hr, hge⟩ => ?_
    obtain ⟨m, rfl⟩ := hr.whole_of_le (by exact_mod_cast hge)
    exact ⟨m, hlimit.trans (Nat.cast_le.mp hge), hr⟩

theorem mul (hx : Whole j x) (hy : Whole k y) (hj : 0 < j) (hk : 0 < k) (hl : l ≤ j * k)
    (hlimit : l ≤ 2 ^ 52) : Whole l (x * y) := by
  have hpos {i n : ℕ} (hi : 0 < i) (hn : i ≤ n) : (0 : ℚ) < n := Nat.cast_pos.mpr (by omega)
  rcases hx with hx | ⟨m, hm, hx⟩
  · rcases hy with hy | ⟨n, hn, hy⟩
    · exact .inl (hx.mul hy)
    · exact .inl (hx.mul_reads hy (hpos hk hn))
  · rcases hy with hy | ⟨n, hn, hy⟩
    · exact .inl (hy.reads_mul hx (hpos hj hm))
    · have hround := hx.mul hy
      rw [← Nat.cast_mul] at hround
      exact of_rounds hround (hl.trans (Nat.mul_le_mul hm hn)) hlimit

end Whole

/-! ### Powers of ten -/

section

variable {l : ℕ} {p s : Float}

theorem whole_squarings (hl : 0 < l) (hlimit : l ≤ 2 ^ 52) (hp : Whole l p) (hs : Whole 1 s)
    (bits n : ℕ) : Whole l (squarings p s bits n) := by
  induction bits generalizing p s n with
  | zero => exact hp
  | succ bits ih =>
    have hp' : Whole l (if n % 2 = 1 then p * s else p) := by
      split
      · exact hp.mul hs hl one_pos (by omega) hlimit
      · exact hp
    unfold squarings
    dsimp only
    split
    · exact hp'
    · exact ih hp' (hs.mul hs one_pos one_pos (by omega) (by norm_num)) (n / 2)

/-- A power is at least the base if there is something to multiply. -/
theorem whole_squarings_of_pos (hl : 0 < l) (hlimit : l ≤ 2 ^ 52) (hp : Whole 1 p)
    (hs : Whole l s) {bits n : ℕ} (hn : 0 < n) (hbits : n < 2 ^ bits) :
    Whole l (squarings p s bits n) := by
  induction bits generalizing p s n with
  | zero => omega
  | succ bits ih =>
    have hss : Whole l (s * s) := hs.mul hs hl hl (Nat.le_mul_of_pos_left l hl) hlimit
    unfold squarings
    dsimp only
    by_cases hodd : n % 2 = 1
    · have hps : Whole l (p * s) := hp.mul hs one_pos hl (by omega) hlimit
      rw [if_pos hodd]
      split
      · exact hps
      · exact whole_squarings hl hlimit hps (hss.mono hl) bits (n / 2)
    · rw [if_neg hodd, if_neg (by omega)]
      exact ih hp hss (by omega) (by rw [pow_succ] at hbits; omega)

theorem asSigned_bounds (n : ℕ) : -2147483648 ≤ asSigned n ∧ asSigned n < 2147483648 := by
  unfold asSigned
  constructor
  · exact Int.le_bmod (by norm_num)
  · exact Int.bmod_lt (by norm_num)

theorem whole_ten : Whole 10 10.0 := .inr ⟨10, le_refl _, reads_ten⟩

theorem whole_one : Whole 1 1.0 := .inr ⟨1, le_refl _, by exact_mod_cast reads_one⟩

/-- A power of ten is whole, or it is not more than a quarter. -/
theorem power_cases (n : ℕ) :
    Whole 1 (power 10.0 (asSigned n)) ∨ ∃ r, Reads (power 10.0 (asSigned n)) r ∧ r ≤ 1 / 4 := by
  have hbounds := asSigned_bounds n
  cases hk : asSigned n with
  | ofNat k =>
    exact .inl (whole_squarings one_pos (by norm_num) whole_one (whole_ten.mono (by norm_num)) 32 k)
  | negSucc k =>
    refine .inr ?_
    have hk : k + 1 < 2 ^ 32 := by
      rw [hk] at hbounds
      omega
    have hwhole : Whole 10 (squarings 1.0 10.0 32 (k + 1)) :=
      whole_squarings_of_pos (by norm_num) (by norm_num) whole_one whole_ten k.succ_pos hk
    unfold power
    rcases hwhole with h | ⟨m, hm, h⟩
    · exact ⟨0, h.reads_div reads_one, by norm_num⟩
    · have hm : (10 : ℚ) ≤ m := by exact_mod_cast hm
      have hround := reads_one.div h (by linarith)
      refine hround.le reads_quarter ?_
      rw [div_le_div_iff₀] <;> linarith

end

/-! ### Rounding to an integer -/

theorem roundToInteger_eq_self {x : Float} (h : x.isNaN = true ∨ IsInfinite x) :
    roundToInteger x = x := by
  have hclass : classify x = .undefined ∨ ∃ s, classify x = .infinite s := by
    rw [classify_eq]
    refine h.imp (fun h => ?_) fun h => ⟨false, ?_⟩
    · rw [isNaN_iff_parts.mp h]
      rfl
    · rw [show parts x = _ from h]
      rfl
  unfold roundToInteger
  rcases hclass with h | ⟨s, h⟩ <;> rw [h]

theorem roundToInteger_of_negSucc {x : Float} {negative : Bool} {m k : ℕ}
    (h : classify x = .finite ⟨negative, m, .negSucc k⟩) :
    roundToInteger x = nearest negative (roundAway m (2 ^ (k + 1))) 1 := by
  have hratio : Binary.ratio ⟨negative, m, .negSucc k⟩ = (m * 1, 2 ^ (k + 1)) := rfl
  have hden : 2 ^ (k + 1) ≠ 1 := by
    have : 1 ≤ 2 ^ k := Nat.one_le_two_pow
    rw [pow_succ]
    omega
  unfold roundToInteger
  rw [h]
  dsimp only
  rw [hratio]
  dsimp only
  rw [if_neg hden, Nat.mul_one]

theorem roundToInteger_of_ofNat {x : Float} {negative : Bool} {m k : ℕ}
    (h : classify x = .finite ⟨negative, m, .ofNat k⟩) : roundToInteger x = x := by
  unfold roundToInteger
  rw [h]
  exact if_pos rfl

theorem reads_zero_of_classify {x : Float} {negative : Bool} {e : ℤ}
    (h : classify x = .finite ⟨negative, 0, e⟩) : Reads x 0 := by
  rw [classify_eq] at h
  cases hx : parts x with
  | notANumber | infinity s => rw [hx] at h; cases h
  | zero s => exact .zero hx
  | finite s m e hm =>
    rw [hx] at h
    simp only [classOf, Class.finite.injEq, Binary.mk.injEq] at h
    exact absurd h.2.1 hm.ne'

theorem reads_nearest_zero (negative : Bool) : Reads (nearest negative 0 1) 0 := by
  have hclass : classify (nearest negative 0 1) = .finite ⟨negative, 0, -1074⟩ := by
    cases negative <;> decide +kernel
  exact reads_zero_of_classify hclass

theorem roundAway_le_iff {m d n : ℕ} (hd : 0 < d) : roundAway m d ≤ n ↔ 2 * m < (2 * n + 1) * d := by
  unfold roundAway
  rw [← Nat.lt_succ_iff, Nat.div_lt_iff_lt_mul (by omega)]
  constructor <;> intro h <;> nlinarith

/-- Rounding to an integer goes past no count, and what is less than a half is rounded down. -/
theorem Reads.roundToInteger {x : Float} {v : ℚ} (h : Reads x v) :
    ∃ r, Reads (roundToInteger x) r ∧ (∀ n : ℕ, v ≤ n → r ≤ n) ∧ (v < 1 / 2 → r = 0) := by
  cases h with
  | @zero s h =>
    have hclass : classify x = .finite ⟨isMinus s, 0, .negSucc 1073⟩ := by
      rw [classify_eq, h]
      rfl
    have hzero : roundAway 0 (2 ^ (1073 + 1)) = 0 :=
      Nat.le_zero.mp ((roundAway_le_iff (by positivity)).mpr (by positivity))
    rw [roundToInteger_of_negSucc hclass, hzero]
    exact ⟨0, reads_nearest_zero _, fun n _ => Nat.cast_nonneg n, fun _ => rfl⟩
  | @finite m e hm h =>
    have hclass : classify x = .finite ⟨false, m, e⟩ := by
      rw [classify_eq, h]
      rfl
    have hlt := (canonical_of_parts h).1.lt
    cases e with
    | ofNat k =>
      rw [roundToInteger_of_ofNat hclass]
      refine ⟨scaled m k, .finite h, fun _ hn => hn, fun hhalf => ?_⟩
      have hwhole : (1 : ℚ) ≤ scaled m (Int.ofNat k) := by
        have : 1 ≤ m * 2 ^ k := Nat.mul_pos hm (by positivity)
        have hcast : (1 : ℚ) ≤ ((m * 2 ^ k : ℕ) : ℚ) := by exact_mod_cast this
        simpa [scaled] using hcast
      linarith
    | negSucc k =>
      have hd : 0 < 2 ^ (k + 1) := by positivity
      have hvalue : scaled m (.negSucc k) = (m : ℚ) / (2 ^ (k + 1) : ℕ) := by
        rw [scaled, zpow_negSucc]
        push_cast
        rfl
      have hd' : (0 : ℚ) < (2 ^ (k + 1) : ℕ) := Nat.cast_pos.mpr hd
      have hlimit : roundAway m (2 ^ (k + 1)) ≤ 2 ^ 52 := by
        rw [roundAway_le_iff hd, pow_succ]
        have : 1 ≤ 2 ^ k := Nat.one_le_two_pow
        omega
      rw [roundToInteger_of_negSucc hclass, hvalue]
      refine ⟨roundAway m (2 ^ (k + 1)), reads_ofNat hlimit, fun n hn => ?_, fun hhalf => ?_⟩
      · rw [div_le_iff₀ hd'] at hn
        have hn : m ≤ n * 2 ^ (k + 1) := by exact_mod_cast hn
        rw [Nat.cast_le, roundAway_le_iff hd]
        nlinarith
      · rw [div_lt_div_iff₀ hd' two_pos, one_mul] at hhalf
        have hhalf : m * 2 < 2 ^ (k + 1) := by exact_mod_cast hhalf
        rw [Nat.cast_eq_zero, ← Nat.le_zero, roundAway_le_iff hd]
        omega

/-! ### Rounding to decimal places -/

/-- The power of ten of a precision is a number, and not zero. -/
def InRange (precision : ℕ) : Prop :=
  ∃ r, 0 < r ∧ Reads (power 10.0 (asSigned precision)) r

/-- A number that is greater than zero, and not past all others. -/
def isPositive (x : Float) : Bool :=
  match classify x with
  | .finite b => !b.negative && b.mantissa ≠ 0
  | .infinite _ | .undefined => false

theorem isPositive_iff {x : Float} : isPositive x = true ↔ ∃ r, 0 < r ∧ Reads x r := by
  unfold isPositive
  rw [classify_eq]
  constructor
  · intro h
    cases hx : parts x with
    | notANumber | infinity s | zero s =>
      rw [hx] at h
      simp [classOf] at h
    | finite s m e hm =>
      rw [hx] at h
      cases s with
      | negative => cases h
      | positive => exact ⟨_, scaled_pos hm e, .finite hx⟩
  · rintro ⟨r, hr, hx⟩
    obtain ⟨m, e, hm, hx⟩ := hx.parts_of_pos hr
    rw [hx]
    simp [classOf, isMinus, hm.ne']

instance (precision : ℕ) : Decidable (InRange precision) :=
  decidable_of_iff _ isPositive_iff

example : InRange 308 ∧ ¬ InRange 309 := by decide +kernel

/-- **A share rounded to decimal places is a share again, if the power of ten is in range.** -/
theorem roundTo_of_inRange {x : Float} {v : ℚ} {precision : ℕ} (h : InRange precision)
    (hx : Reads x v) (hv : v ≤ 1) : ∃ r, Reads (roundTo x precision) r ∧ r ≤ 1 := by
  obtain ⟨f, hpos, hf⟩ := h
  have hle : v * f ≤ f := mul_le_of_le_one_left hpos.le hv
  obtain ⟨y, hy, hyf⟩ := (hx.mul hf).le hf hle
  obtain ⟨r, hr, hcount, hhalf⟩ := hy.roundToInteger
  have hrf : r ≤ f := by
    rcases power_cases precision with (hinfinite | ⟨n, -, hn⟩) | ⟨q, hq, hquarter⟩
    · exact absurd hinfinite hf.not_isInfinite
    · obtain rfl := hf.value_eq hn
      exact hcount n hyf
    · obtain rfl := hf.value_eq hq
      rw [hhalf (by linarith)]
      exact hpos.le
  exact (hr.div hf hpos).le reads_one ((div_le_one hpos).mpr hrf)

theorem roundTo_of_not_inRange {x : Float} {v : ℚ} {precision : ℕ} (h : ¬ InRange precision)
    (hx : Reads x v) : (roundTo x precision).isNaN = true := by
  unfold roundTo
  dsimp only
  generalize hf : power 10.0 (asSigned precision) = f
  have hcases := power_cases precision
  rw [hf] at hcases
  rcases hcases with (hinfinite | ⟨n, hn, hreads⟩) | ⟨r, hreads, -⟩
  · rcases hx.nonneg.eq_or_lt with rfl | hpos
    · have hmul := hinfinite.isNaN_zero_mul hx
      rw [roundToInteger_eq_self (.inl hmul)]
      exact isNaN_div hmul f
    · have hmul := hinfinite.reads_mul hx hpos
      rw [roundToInteger_eq_self (.inr hmul)]
      exact hmul.isNaN_div hinfinite
  · exact absurd ⟨n, Nat.cast_pos.mpr (by omega), hf ▸ hreads⟩ h
  · obtain rfl : r = 0 := by
      by_contra hne
      exact h ⟨r, lt_of_le_of_ne hreads.nonneg (Ne.symm hne), hf ▸ hreads⟩
    obtain ⟨y, hy, hle⟩ := (hx.mul hreads).le hreads (mul_zero v).le
    obtain ⟨r, hr, -, hhalf⟩ := hy.roundToInteger
    obtain rfl := hhalf (by linarith)
    exact isNaN_zero_div_zero hr hreads

theorem isNaN_roundTo {x : Float} (h : x.isNaN = true) (precision : ℕ) :
    (roundTo x precision).isNaN = true := by
  have hmul := isNaN_mul h (power 10.0 (asSigned precision))
  unfold roundTo
  dsimp only
  rw [roundToInteger_eq_self (.inl hmul)]
  exact isNaN_div hmul _

end Sortie.Decimal
