import Mathlib
import Sortie.Decimal.Binary

/-!
# Counts as numbers

A count below `2 ^ 52` is a number of its own (`classify_ofNat`), so it can be taken back from there
(`toIntWithin_ofNat`).
-/

namespace Sortie.Decimal

/-- Bits that stand for something are kept. -/
theorem toBits_ofBits {b : UInt64} (h : b.toNat / 2 ^ 52 % 2 ^ 11 ≠ 2047) :
    (Float.ofBits b).toBits = b := by
  have hvalid : Float.Model.Format.binary64.Valid b.toBitVec := by
    refine ⟨fun hexponent _ => absurd ?_ h⟩
    have hscale : b.toNat >>> 52 % 2 ^ 11 = 2047 := congrArg BitVec.toNat hexponent
    rw [Nat.shiftRight_eq_div_pow] at hscale
    exact hscale
  exact congrArg Float.toBits (Float.ofBits_toBits (Float.ofModel ⟨b, hvalid⟩))

section

variable {n : Nat}

/-- The places of a count behind its first one, up to fifty-two. -/
def spare (n : Nat) : Nat :=
  52 - n.log2

theorem log2_add_spare (h : n < 2 ^ 52) (hn : n ≠ 0) : n.log2 + spare n = 52 := by
  have := (Nat.log2_lt hn).mpr h
  unfold spare
  omega

theorem mul_pow_spare (h : n < 2 ^ 52) (hn : n ≠ 0) :
    2 ^ 52 ≤ n * 2 ^ spare n ∧ n * 2 ^ spare n < 2 ^ 53 := by
  have hsum := log2_add_spare h hn
  constructor
  · calc 2 ^ 52 = 2 ^ n.log2 * 2 ^ spare n := by rw [← pow_add, hsum]
      _ ≤ n * 2 ^ spare n := Nat.mul_le_mul_right _ (Nat.log2_self_le hn)
  · calc n * 2 ^ spare n < 2 ^ (n.log2 + 1) * 2 ^ spare n :=
          Nat.mul_lt_mul_of_pos_right Nat.lt_log2_self (by positivity)
      _ = 2 ^ 53 := by rw [← pow_add, Nat.add_right_comm, hsum]

theorem lastPlace_one (h : n < 2 ^ 52) (hn : n ≠ 0) : lastPlace n 1 = .negSucc (spare n - 1) := by
  have hsum := log2_add_spare h hn
  have hlog := (Nat.log2_lt hn).mpr h
  have hguess : (n.log2 : Int) - (Nat.log2 1 : Nat) - 53 = .negSucc (spare n) := by
    have : Nat.log2 1 = 0 := by decide
    omega
  have hlow : ¬ n * Nat.pow 2 (spare n + 1) < Nat.pow 2 53 * (1 * 1) := by
    have := (mul_pow_spare h hn).1
    rw [Nat.pow_eq, Nat.pow_eq, pow_succ, ← Nat.mul_assoc]
    omega
  unfold lastPlace
  rw [hguess]
  dsimp only [powerOfTwo]
  rw [if_neg hlow]
  omega

theorem nearestBits_one (h : n < 2 ^ 52) (hn : n ≠ 0) :
    nearestBits n 1 = (1074 - spare n) * 2 ^ 52 + n * 2 ^ spare n := by
  have hsum := log2_add_spare h hn
  have hlog := (Nat.log2_lt hn).mpr h
  obtain ⟨k, hk⟩ : ∃ k, spare n = k + 1 := ⟨spare n - 1, by omega⟩
  have hmantissa := mul_pow_spare h hn
  have hround (m : Nat) : roundEven m 1 = m := by
    simp [roundEven, Nat.mod_one]
  have hplace : (Int.negSucc k + 1074).toNat = 1074 - spare n := by omega
  unfold nearestBits
  rw [lastPlace_one h hn, hk, Nat.add_sub_cancel]
  simp only [powerOfTwo, Nat.pow_eq, hround, Nat.one_mul, hplace, hk]
  rw [hk] at hmantissa
  omega

/-- A count is a number of its own. -/
theorem classify_ofNat (h : n < 2 ^ 52) (hn : n ≠ 0) :
    classify (ofNat n) = .finite ⟨false, n * 2 ^ spare n, .negSucc (spare n - 1)⟩ := by
  have hsum := log2_add_spare h hn
  have hlog := (Nat.log2_lt hn).mpr h
  have hmantissa := mul_pow_spare h hn
  have hbits := nearestBits_one h hn
  have hnat : (UInt64.ofNat (nearestBits n 1)).toNat = nearestBits n 1 := by
    rw [UInt64.toNat_ofNat', Nat.mod_eq_of_lt]
    omega
  have hscale : nearestBits n 1 / 2 ^ 52 % 2 ^ 11 = 1075 - spare n := by omega
  have hfraction : nearestBits n 1 % 2 ^ 52 = n * 2 ^ spare n - 2 ^ 52 := by omega
  have hkept : (ofNat n).toBits.toNat = nearestBits n 1 := by
    unfold ofNat nearest
    rw [if_neg hn]
    dsimp only
    rw [if_neg Bool.false_ne_true, toBits_ofBits, hnat]
    rw [hnat, hscale]
    omega
  have hsign : decide (Nat.pow 2 63 ≤ nearestBits n 1) = false := by
    rw [decide_eq_false_iff_not, Nat.pow_eq]
    omega
  unfold classify
  rw [hkept]
  simp only [Nat.pow_eq] at hsign ⊢
  have hwhole : n * 2 ^ spare n - 2 ^ 52 + 2 ^ 52 = n * 2 ^ spare n := by omega
  have hplace : ((1075 - spare n : Nat) : Int) - 1075 = .negSucc (spare n - 1) := by omega
  rw [hsign, hscale, hfraction, if_neg (by omega), if_neg (by omega), hwhole, hplace]

theorem toIntWithin_of_finite {low high : Int} {x : Float} {b : Binary} (h : classify x = .finite b)
    (hsign : b.negative = false) :
    toIntWithin low high x = max low (min high (b.ratio.1 / b.ratio.2 : Nat)) := by
  unfold toIntWithin
  rw [h]
  dsimp only
  rw [hsign, if_neg Bool.false_ne_true, Int.natCast_ediv]

theorem toIntWithin_ofNat {low high : Int} (hlow : low ≤ 0) (hhigh : (n : Int) ≤ high)
    (hn : n < 2 ^ 52) : toIntWithin low high (ofNat n) = n := by
  by_cases hzero : n = 0
  · have hclass : classify (ofNat 0) = .finite ⟨false, 0, -1074⟩ := by decide
    have hratio (e : Int) : (Binary.ratio ⟨false, 0, e⟩).1 = 0 := Nat.zero_mul _
    rw [hzero, toIntWithin_of_finite hclass rfl, hratio, Nat.zero_div]
    omega
  · obtain ⟨k, hk⟩ : ∃ k, spare n = k + 1 := ⟨spare n - 1, by
      have := log2_add_spare hn hzero
      have := (Nat.log2_lt hzero).mpr hn
      omega⟩
    rw [toIntWithin_of_finite (classify_ofNat hn hzero) rfl, hk]
    show max low (min high ((n * 2 ^ (k + 1) * 1 / 2 ^ (k + 1) : Nat) : Int)) = n
    rw [Nat.mul_one, Nat.mul_div_cancel _ (by positivity)]
    omega

theorem toNatUpTo_ofNat {high : Nat} (h : n ≤ high) (hn : n < 2 ^ 52) :
    toNatUpTo high (ofNat n) = n := by
  unfold toNatUpTo
  rw [toIntWithin_ofNat (Int.le_refl 0) (by omega) hn]
  rfl

end

end Sortie.Decimal
