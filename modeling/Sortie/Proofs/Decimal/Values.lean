import Mathlib
import Sortie.Decimal.Binary

/-!
# The values of numbers

A number that is not negative reads as a fraction (`Reads`), the mantissa scaled by a power of two.
Mantissa and exponent are `Canonical`, so two numbers are in the order of their values
(`Reads.le_iff`, `Reads.lt_iff`), and a canonical pair that is packed is had back unless it is too
great (`parts_pack`).
-/

namespace Sortie.Decimal

open Float.Model (UnpackedFloat Format totalExponent)
open Float.Model.UnpackedFloat

/-- What a number is made of. -/
def parts (x : Float) : UnpackedFloat :=
  x.toModel.unpack

/-- The value of a mantissa at an exponent. -/
def scaled (m : ℕ) (e : ℤ) : ℚ :=
  m * 2 ^ e

/-- The mantissa has all its places, or the exponent is the least there is. -/
structure Canonical (m : ℕ) (e : ℤ) : Prop where
  lt : m < 2 ^ 53
  low : -1074 ≤ e
  full : 2 ^ 52 ≤ m ∨ e = -1074

theorem scaled_nonneg (m : ℕ) (e : ℤ) : 0 ≤ scaled m e := by
  unfold scaled
  positivity

theorem scaled_pos {m : ℕ} (h : 0 < m) (e : ℤ) : 0 < scaled m e := by
  unfold scaled
  positivity

theorem scaled_add (m k : ℕ) (e : ℤ) : scaled m (e + k) = scaled (m * 2 ^ k) e := by
  unfold scaled
  rw [zpow_add₀ two_ne_zero, zpow_natCast]
  push_cast
  ring

theorem scaled_strictMono (e : ℤ) : StrictMono (scaled · e) := by
  intro m n h
  have hp : (0 : ℚ) < 2 ^ e := by positivity
  exact mul_lt_mul_of_pos_right (Nat.cast_lt.mpr h) hp

theorem scaled_le_scaled_iff {m n : ℕ} (e : ℤ) : scaled m e ≤ scaled n e ↔ m ≤ n :=
  (scaled_strictMono e).le_iff_le

namespace Canonical

variable {m n : ℕ} {e k : ℤ}

/-- A greater exponent makes a greater number. -/
theorem scaled_lt (h : Canonical m e) (hn : Canonical n k) (hlt : e < k) :
    scaled m e < scaled n k := by
  have hfull : 2 ^ 52 ≤ n := hn.full.resolve_right (by have := h.low; omega)
  obtain ⟨j, rfl⟩ : ∃ j : ℕ, k = e + (j + 1 : ℕ) := ⟨(k - e - 1).toNat, by omega⟩
  rw [scaled_add]
  have hm : m < n * 2 ^ (j + 1) := by
    have : 1 ≤ 2 ^ j := Nat.one_le_two_pow
    have : n * 1 ≤ n * 2 ^ j := Nat.mul_le_mul_left n this
    have := h.lt
    rw [pow_succ, ← Nat.mul_assoc]
    omega
  exact lt_of_not_ge fun hle => absurd ((scaled_le_scaled_iff e).mp hle) (by omega)

/-- The exponents are compared first, and then the mantissas. -/
theorem compare_scaled (h : Canonical m e) (hn : Canonical n k) :
    (compare e k).then (compare m n) = compare (scaled m e) (scaled n k) := by
  rcases lt_trichotomy e k with hlt | rfl | hlt
  · rw [compare_lt_iff_lt.mpr hlt, compare_lt_iff_lt.mpr (h.scaled_lt hn hlt)]
    rfl
  · rw [compare_eq_iff_eq.mpr rfl]
    have hmono := (scaled_strictMono e).cmp_map_eq m n
    rw [cmp_eq_compare, cmp_eq_compare] at hmono
    exact hmono.symm
  · rw [compare_gt_iff_gt.mpr hlt, compare_gt_iff_gt.mpr (hn.scaled_lt h hlt)]
    rfl

end Canonical

/-! ### Packed and unpacked -/

theorem toNat_one_append (b : BitVec 52) : (1#1 ++ b).toNat = 2 ^ 52 + b.toNat := by
  rw [BitVec.toNat_append, ← Nat.shiftLeft_add_eq_or_of_lt b.isLt]
  rfl

theorem canonical_of_parts {x : Float} {s : Sign} {m : ℕ} {e : ℤ} {hm : 0 < m}
    (h : parts x = .finite s m e hm) : Canonical m e ∧ e ≤ 971 := by
  unfold parts Float.Model.unpack UnpackedFloat.unpack at h
  dsimp only at h
  split at h
  · split at h <;> cases h
  · next hinf =>
    have hfraction := (@unpackMantissa Format.binary64 x.toModel.toBits.toBitVec).isLt
    have hscale := (@unpackExponent Format.binary64 x.toModel.toBits.toBitVec).isLt
    have hmax : (@unpackExponent Format.binary64 x.toModel.toBits.toBitVec).toNat ≠ 2047 :=
      fun hn => hinf (BitVec.eq_of_toNat_eq hn)
    split at h
    · next hzero =>
      split at h
      · cases h
      · cases h
        have hzero := congrArg BitVec.toNat hzero
        refine ⟨⟨?_, ?_, .inr ?_⟩, ?_⟩ <;> simp_all [Format.exponentBias]
        omega
    · next hzero =>
      have hpos : (@unpackExponent Format.binary64 x.toModel.toBits.toBitVec).toNat ≠ 0 :=
        fun hn => hzero (BitVec.eq_of_toNat_eq hn)
      cases h
      refine ⟨⟨?_, ?_, .inl ?_⟩, ?_⟩
      · rw [toNat_one_append]
        simp_all
        omega
      · simp_all [Format.exponentBias]
        omega
      · rw [toNat_one_append]
        omega
      · simp_all [Format.exponentBias]
        omega

theorem toNat_one_append_pos (b : BitVec 52) : 0 < (1#1 ++ b).toNat := by
  rw [toNat_one_append]
  positivity

theorem unpack_packComponents (s : Sign) (k : BitVec 11) (b : BitVec 52) :
    UnpackedFloat.unpack Format.binary64 (packComponents Format.binary64 s k b) =
      if k = -1#11 then if b = 0#52 then .infinity s else .notANumber
      else if k = 0#11 then
        if h : b = 0#52 then .zero s
        else .finite s b.toNat (-1074) (by
          simpa [BitVec.toNat_pos, BitVec.pos_iff_ne_zero] using h)
      else .finite s (1#1 ++ b).toNat (k.toNat - 1075) (toNat_one_append_pos b) := by
  have hsign : Sign.ofBitVec s.toBitVec = s := Sign.ofBitVec_toBitVec s
  have hbias : (Format.binary64.exponentBias : ℤ) = 1023 := rfl
  unfold UnpackedFloat.unpack
  simp only [unpackMantissa_packComponents, unpackExponent_packComponents,
    unpackSign_packComponents, hsign, hbias]
  split_ifs with h1 h2 h3 h4 <;> first | rfl | (subst h3; rfl)

theorem log2_add_one_eq_iff {m : ℕ} (hm : 0 < m) (hlt : m < 2 ^ 53) :
    m.log2 + 1 = 53 ↔ 2 ^ 52 ≤ m := by
  have hle := (Nat.log2_lt hm.ne').mpr hlt
  rw [← Nat.le_log2 hm.ne']
  omega

theorem pack_finite (s : Sign) {m : ℕ} {e : ℤ} (hm : 0 < m) (hc : Canonical m e) :
    UnpackedFloat.pack Format.binary64 (.finite s m e hm) =
      if e ≤ 971 then
        packComponents Format.binary64 s
          (if 2 ^ 52 ≤ m then BitVec.ofNat 11 (e + 1075).toNat else 0#11) (BitVec.ofNat 52 m)
      else packComponents Format.binary64 s (-1#11) 0 := by
  have hlow := hc.low
  have hlog : m.log2 + 1 = Format.binary64.mantissaBits ↔ 2 ^ 52 ≤ m :=
    log2_add_one_eq_iff hm hc.lt
  have hscale : (e + Format.binary64.exponentBias + (52 : ℕ)).toNat = (e + 1075).toNat := by
    have hbias : (Format.binary64.exponentBias : ℤ) = 1023 := rfl
    omega
  unfold UnpackedFloat.pack
  dsimp only
  by_cases he : e ≤ 971
  · rw [if_pos he, if_neg (by omega), hscale]
    simp only [hlog]
    split <;> rfl
  · rw [if_neg he, if_pos (by omega)]
    rfl

/-- What is packed is had back if it is canonical and not too great. -/
theorem parts_pack (s : Sign) {m : ℕ} {e : ℤ} (hm : 0 < m) (hc : Canonical m e) :
    parts (.ofModel (.pack (.finite s m e hm))) =
      if e ≤ 971 then .finite s m e hm else .infinity s := by
  have hlow := hc.low
  have hlt := hc.lt
  show UnpackedFloat.unpack Format.binary64 (UnpackedFloat.pack Format.binary64 _) = _
  rw [pack_finite s hm hc]
  by_cases he : e ≤ 971
  · rw [if_pos he, if_pos he, unpack_packComponents]
    by_cases hfull : 2 ^ 52 ≤ m
    · have hfraction : (BitVec.ofNat 52 m).toNat = m - 2 ^ 52 := by
        rw [BitVec.toNat_ofNat]
        omega
      have hscale : (BitVec.ofNat 11 (e + 1075).toNat).toNat = (e + 1075).toNat := by
        rw [BitVec.toNat_ofNat]
        omega
      have hmax : BitVec.ofNat 11 (e + 1075).toNat ≠ -1#11 := fun h => by
        have := congrArg BitVec.toNat h
        rw [hscale] at this
        simp at this
        omega
      have hmin : BitVec.ofNat 11 (e + 1075).toNat ≠ 0#11 := fun h => by
        have := congrArg BitVec.toNat h
        rw [hscale] at this
        simp at this
        omega
      rw [if_pos hfull, if_neg hmax, if_neg hmin]
      congr 1
      · rw [toNat_one_append, hfraction]
        omega
      · rw [hscale]
        omega
    · have hfraction : (BitVec.ofNat 52 m).toNat = m := by
        rw [BitVec.toNat_ofNat]
        omega
      have hpos : BitVec.ofNat 52 m ≠ 0#52 := fun h => by
        have := congrArg BitVec.toNat h
        rw [hfraction] at this
        exact hm.ne' this
      rw [if_neg hfull, if_neg (by decide), if_pos rfl, dif_neg hpos]
      congr 1
      exact (hc.full.resolve_left hfull).symm
  · rw [if_neg he, if_neg he]
    exact unpack_packComponents s (-1#11) 0

/-! ### Values -/

/-- A number that is not negative, and its value. -/
inductive Reads (x : Float) : ℚ → Prop
  | zero {s : Sign} (h : parts x = .zero s) : Reads x 0
  | finite {m : ℕ} {e : ℤ} {hm : 0 < m} (h : parts x = .finite .positive m e hm) :
      Reads x (scaled m e)

/-- The number is past all others. -/
def IsInfinite (x : Float) : Prop :=
  parts x = .infinity .positive

theorem le_iff_parts {x y : Float} : x ≤ y ↔ (parts x).le (parts y) = true := by
  show decide ((parts x).le (parts y) = true) = true ↔ _
  exact decide_eq_true_iff

theorem lt_iff_parts {x y : Float} : x < y ↔ (parts x).lt (parts y) = true := by
  show decide ((parts x).lt (parts y) = true) = true ↔ _
  exact decide_eq_true_iff

theorem isNaN_iff_parts {x : Float} : x.isNaN = true ↔ parts x = .notANumber := by
  show (parts x).isNaN = true ↔ _
  cases parts x <;> simp [UnpackedFloat.isNaN]

theorem isNaN_eq_of_le {x y : Float} (h : x ≤ y) : x.isNaN = false ∧ y.isNaN = false := by
  rw [le_iff_parts] at h
  constructor
  · refine Bool.eq_false_iff.mpr fun hn => ?_
    rw [isNaN_iff_parts.mp hn] at h
    cases h
  · refine Bool.eq_false_iff.mpr fun hn => ?_
    rw [isNaN_iff_parts.mp hn] at h
    cases hx : parts x <;> rw [hx] at h <;> cases h

namespace Reads

variable {x y : Float} {v w : ℚ}

theorem nonneg (h : Reads x v) : 0 ≤ v := by
  cases h with
  | zero => exact le_refl _
  | finite => exact scaled_nonneg _ _

theorem isNaN_eq (h : Reads x v) : x.isNaN = false := by
  refine Bool.eq_false_iff.mpr fun hn => ?_
  rw [isNaN_iff_parts] at hn
  cases h with
  | zero h => rw [h] at hn; cases hn
  | finite h => rw [h] at hn; cases hn

theorem value_eq (h : Reads x v) (h' : Reads x w) : v = w := by
  cases h with
  | zero h =>
    cases h' with
    | zero => rfl
    | finite h' => rw [h] at h'; cases h'
  | finite h =>
    cases h' with
    | zero h' => rw [h] at h'; cases h'
    | finite h' => rw [h] at h'; cases h'; rfl

/-- Numbers are compared by their values. -/
theorem compare_eq (hx : Reads x v) (hy : Reads y w) :
    (parts x).compare (parts y) = some (compare v w) := by
  cases hx with
  | zero hx =>
    cases hy with
    | zero hy => rw [hx, hy]; simp [UnpackedFloat.compare]
    | @finite n k hn hy =>
      rw [hx, hy, compare_lt_iff_lt.mpr (scaled_pos hn k)]
      rfl
  | @finite m e hm hx =>
    cases hy with
    | zero hy =>
      rw [hx, hy, compare_gt_iff_gt.mpr (scaled_pos hm e)]
      rfl
    | @finite n k hn hy =>
      rw [hx, hy, ← (canonical_of_parts hx).1.compare_scaled (canonical_of_parts hy).1]
      rfl

theorem le_iff (hx : Reads x v) (hy : Reads y w) : x ≤ y ↔ v ≤ w := by
  rw [le_iff_parts, UnpackedFloat.le, hx.compare_eq hy]
  simp [Ordering.isLE_iff_ne_gt, compare_gt_iff_gt]

theorem lt_iff (hx : Reads x v) (hy : Reads y w) : x < y ↔ v < w := by
  rw [lt_iff_parts, UnpackedFloat.lt, hx.compare_eq hy]
  simp [compare_lt_iff_lt]

end Reads

/-! ### Classes -/

def isMinus : Sign → Bool
  | .negative => true
  | .positive => false

/-- What a number is classified as, by what it is made of. -/
def classOf : UnpackedFloat → Class
  | .notANumber => .undefined
  | .infinity s => .infinite (isMinus s)
  | .zero s => .finite ⟨isMinus s, 0, -1074⟩
  | .finite s m e _ => .finite ⟨isMinus s, m, e⟩

theorem toNat_unpackExponent (b : BitVec Format.binary64.numBits) :
    (unpackExponent b).toNat = b.toNat / 2 ^ 52 % 2 ^ 11 := by
  simp [unpackExponent, Nat.shiftRight_eq_div_pow]

theorem toNat_unpackMantissa (b : BitVec Format.binary64.numBits) :
    (unpackMantissa b).toNat = b.toNat % 2 ^ 52 := by
  simp [unpackMantissa]

theorem isMinus_unpackSign (b : BitVec Format.binary64.numBits) :
    isMinus (Sign.ofBitVec (unpackSign b)) = decide (2 ^ 63 ≤ b.toNat) := by
  have htoNat : (unpackSign b).toNat = b.toNat / 2 ^ 63 % 2 := by
    simp [unpackSign, Nat.shiftRight_eq_div_pow]
  have hlt : b.toNat < 2 ^ 64 := b.isLt
  unfold Sign.ofBitVec
  by_cases h : 2 ^ 63 ≤ b.toNat
  · rw [if_neg, decide_eq_true h]
    · rfl
    intro hzero
    rw [hzero] at htoNat
    simp at htoNat
    omega
  · rw [if_pos, decide_eq_false h]
    · rfl
    refine BitVec.eq_of_toNat_eq ?_
    rw [htoNat]
    simp
    omega

theorem classify_eq (x : Float) : classify x = classOf (parts x) := by
  let b : BitVec Format.binary64.numBits := x.toModel.toBits.toBitVec
  have hbits : x.toBits.toNat = b.toNat := rfl
  have hbias : (Format.binary64.exponentBias : ℤ) = 1023 := rfl
  have hscale := toNat_unpackExponent b
  have hfraction := toNat_unpackMantissa b
  have hsign := isMinus_unpackSign b
  have hmax : unpackExponent b = -1#11 ↔ b.toNat / 2 ^ 52 % 2 ^ 11 = 2047 := by
    rw [← hscale]
    exact BitVec.toNat_inj.symm
  have hmin : unpackExponent b = 0#11 ↔ b.toNat / 2 ^ 52 % 2 ^ 11 = 0 := by
    rw [← hscale]
    exact BitVec.toNat_inj.symm
  have hclear : unpackMantissa b = 0#52 ↔ b.toNat % 2 ^ 52 = 0 := by
    rw [← hfraction]
    exact BitVec.toNat_inj.symm
  unfold classify
  dsimp only
  rw [hbits]
  show _ = classOf (UnpackedFloat.unpack Format.binary64 b)
  unfold UnpackedFloat.unpack
  simp only [Nat.pow_eq, ← hsign]
  by_cases hs : b.toNat / 2 ^ 52 % 2 ^ 11 = 2047
  · rw [if_pos hs, if_pos (hmax.mpr hs)]
    by_cases hf : b.toNat % 2 ^ 52 = 0
    · rw [if_pos hf, if_pos (hclear.mpr hf)]
      rfl
    · rw [if_neg hf, if_neg (mt hclear.mp hf)]
      rfl
  · rw [if_neg hs, if_neg (mt hmax.mp hs)]
    by_cases hz : b.toNat / 2 ^ 52 % 2 ^ 11 = 0
    · rw [if_pos hz, if_pos (hmin.mpr hz)]
      by_cases hf : b.toNat % 2 ^ 52 = 0
      · rw [dif_pos (hclear.mpr hf), hf]
        rfl
      · rw [dif_neg (mt hclear.mp hf)]
        simp only [classOf, hfraction, hscale, hz, hbias]
        rfl
    · rw [if_neg hz, if_neg (mt hmin.mp hz)]
      simp only [classOf, toNat_one_append, hfraction, hscale, hbias, Nat.add_comm]
      rfl

theorem reads_of_classify {x : Float} {m : ℕ} {e : ℤ} (h : classify x = .finite ⟨false, m, e⟩) :
    Reads x (scaled m e) := by
  rw [classify_eq] at h
  cases hx : parts x with
  | notANumber => rw [hx] at h; cases h
  | infinity s => rw [hx] at h; cases h
  | zero s =>
    rw [hx] at h
    simp only [classOf, Class.finite.injEq, Binary.mk.injEq] at h
    obtain ⟨-, rfl, rfl⟩ := h
    simpa [scaled] using Reads.zero hx
  | finite s n k hn =>
    rw [hx] at h
    cases s with
    | negative => cases h
    | positive =>
      cases h
      exact .finite hx

end Sortie.Decimal
