import Sortie.Proofs.Decimal.Values

/-!
# Faithful rounding

A product and a quotient are rounded so that no number lies between the exact result and the
rounded one (`Rounds`).  So a bound on the exact result that is a number itself is a bound on the
rounded one, and that is all of the arithmetic that is needed here.

A mantissa is rounded with two bits behind it.  `Holds` says what they know of the exact value; a
place given up keeps it (`Holds.shiftRightOne`), and rounding then goes to one of the two
neighbours, which are next to one another (`Canonical.gap`).
-/

namespace Sortie.Decimal

open Float.Model (UnpackedFloat Format totalExponent)
open Float.Model.UnpackedFloat

/-- No number lies between `q` and `z`. -/
structure Rounds (q : ℚ) (z : Float) : Prop where
  le : ∀ {b : Float} {w : ℚ}, Reads b w → q ≤ w → ∃ r, Reads z r ∧ r ≤ w
  ge : ∀ {b : Float} {w : ℚ}, Reads b w → w ≤ q → IsInfinite z ∨ ∃ r, Reads z r ∧ w ≤ r

/-! ### Mantissas with two bits behind them -/

/-- The mantissa is that of `q` rounded down, and the bits tell whether anything is lost. -/
structure Holds (em : ExtendedMantissa) (e : ℤ) (q : ℚ) : Prop where
  le : scaled em.mantissa e ≤ q
  lt : q < scaled (em.mantissa + 1) e
  clear_iff : q = scaled em.mantissa e ↔ em.roundBit = false ∧ em.stickyBit = false

theorem scaled_add_one (m : ℕ) (e : ℤ) : scaled m (e + 1) = scaled (m * 2) e :=
  scaled_add m 1 e

theorem Holds.shiftRightOne {em : ExtendedMantissa} {e : ℤ} {q : ℚ} (h : Holds em e q) :
    Holds em.shiftRightOne (e + 1) q := by
  obtain ⟨m, r, s⟩ := em
  obtain ⟨hle, hlt, hclear⟩ := h
  have hdown : scaled (m / 2 * 2) e ≤ scaled m e := (scaled_le_scaled_iff e).mpr (by omega)
  have hup : scaled (m + 1) e ≤ scaled ((m / 2 + 1) * 2) e :=
    (scaled_le_scaled_iff e).mpr (by omega)
  refine ⟨?_, ?_, ?_⟩
  · rw [scaled_add_one]
    exact hdown.trans hle
  · rw [scaled_add_one]
    exact hlt.trans_le hup
  · rw [scaled_add_one]
    have heven : q = scaled (m / 2 * 2) e ↔ m % 2 = 0 ∧ q = scaled m e := by
      constructor
      · intro hq
        have hm : m ≤ m / 2 * 2 := (scaled_le_scaled_iff e).mp (hle.trans hq.le)
        have hm : m / 2 * 2 = m := by omega
        exact ⟨by omega, hm ▸ hq⟩
      · rintro ⟨hm, hq⟩
        rwa [Nat.div_mul_cancel (Nat.dvd_of_mod_eq_zero hm)]
    show q = scaled (m / 2 * 2) e ↔ (m % 2 != 0) = false ∧ (r || s) = false
    rw [heven, hclear]
    simp

theorem Holds.shiftRight {em : ExtendedMantissa} {e : ℤ} {q : ℚ} (h : Holds em e q) (n : ℕ) :
    Holds (em >>> n) (e + n) q := by
  show Holds (n.repeat ExtendedMantissa.shiftRightOne em) (e + n) q
  induction n with
  | zero => simpa [Nat.repeat] using h
  | succ n ih =>
    have hs := ih.shiftRightOne
    rwa [Nat.repeat, Nat.cast_succ, ← add_assoc]

theorem mantissa_shiftRight (em : ExtendedMantissa) (n : ℕ) :
    (em >>> n).mantissa = em.mantissa / 2 ^ n := by
  show (n.repeat ExtendedMantissa.shiftRightOne em).mantissa = _
  induction n with
  | zero => simp [Nat.repeat]
  | succ n ih =>
    rw [Nat.repeat, pow_succ, ← Nat.div_div_eq_div_mul, ← ih]
    rfl

/-- A mantissa is rounded down, or up if something is lost. -/
theorem roundedMantissa_cases (em : ExtendedMantissa) :
    em.roundedMantissa = em.mantissa ∨
      em.roundedMantissa = em.mantissa + 1 ∧ ¬ (em.roundBit = false ∧ em.stickyBit = false) := by
  obtain ⟨m, r, s⟩ := em
  cases r <;> cases s <;>
    simp [ExtendedMantissa.roundedMantissa, ExtendedMantissa.accuracy, Accuracy.roundToNearestEven]
  omega

namespace Canonical

variable {m n : ℕ} {e k : ℤ}

/-- Two mantissas next to one another stand for neighbours. -/
theorem gap (h : Canonical m e) (hn : Canonical n k) (hlt : scaled m e < scaled n k) :
    scaled (m + 1) e ≤ scaled n k := by
  have hle : e ≤ k := not_lt.mp fun hk => absurd (hn.scaled_lt h hk) (not_lt.mpr hlt.le)
  obtain ⟨j, rfl⟩ : ∃ j : ℕ, k = e + j := ⟨(k - e).toNat, by omega⟩
  rw [scaled_add] at hlt ⊢
  exact (scaled_le_scaled_iff e).mpr ((scaled_strictMono e).lt_iff_lt.mp hlt)

end Canonical

/-! ### Rounding to canonical pairs -/

/-- How many places of a mantissa are given up. -/
def surplus (m : ℕ) (e : ℤ) : ℕ :=
  (Format.binary64.targetExponent (totalExponent m e) - e).toNat

theorem targetExponent_eq (m : ℕ) (e : ℤ) :
    Format.binary64.targetExponent (totalExponent m e) = max (m.log2 + 1 + e - 53) (-1074) :=
  rfl

/-- Without its surplus a mantissa is canonical, if it had places enough to begin with. -/
theorem canonical_div {m : ℕ} {e : ℤ} (h : 2 ^ 52 ≤ m ∨ e ≤ -1074) :
    Canonical (m / 2 ^ surplus m e) (e + surplus m e) := by
  have hlog (hm : 2 ^ 52 ≤ m) : 52 ≤ m.log2 := (Nat.le_log2 (by omega)).mpr hm
  have hsurplus : (surplus m e : ℤ) = max (m.log2 + 1 + e - 53) (-1074) - e := by
    unfold surplus
    rw [targetExponent_eq]
    have := h.imp_left hlog
    omega
  refine ⟨?_, by omega, ?_⟩
  · rw [Nat.div_lt_iff_lt_mul (by positivity), ← pow_add]
    exact Nat.lt_log2_self.trans_le (Nat.pow_le_pow_right (by norm_num) (by omega))
  · refine or_iff_not_imp_right.mpr fun hlow => ?_
    have hm : m ≠ 0 := by
      rintro rfl
      have : Nat.log2 0 = 0 := rfl
      omega
    rw [Nat.le_div_iff_mul_le (by positivity), ← pow_add]
    exact (Nat.pow_le_pow_right (by norm_num) (by omega)).trans (Nat.log2_self_le hm)

/-- A mantissa with no place too many keeps all of them. -/
theorem surplus_of_lt {m : ℕ} {e : ℤ} (hm : m < 2 ^ 53) (he : -1074 ≤ e) : surplus m e = 0 := by
  have hlog : m.log2 < 53 := by
    rcases Nat.eq_zero_or_pos m with rfl | hpos
    · decide
    · exact (Nat.log2_lt hpos.ne').mpr hm
  unfold surplus
  rw [targetExponent_eq]
  omega

theorem surplus_two_pow {e : ℤ} (he : -1074 ≤ e) : surplus (2 ^ 53) e = 1 := by
  have hlog : Nat.log2 (2 ^ 53) = 53 := Nat.log2_two_pow
  unfold surplus
  rw [targetExponent_eq]
  omega

/-- A mantissa that was rounded up by one may have a place too many, which is empty. -/
theorem scaled_div {m : ℕ} {e : ℤ} (hm : m ≤ 2 ^ 53) (he : -1074 ≤ e) :
    scaled (m / 2 ^ surplus m e) (e + surplus m e) = scaled m e := by
  have hdvd : 2 ^ surplus m e ∣ m := by
    rcases hm.lt_or_eq with hlt | rfl
    · rw [surplus_of_lt hlt he, pow_zero]
      exact one_dvd m
    · rw [surplus_two_pow he]
      norm_num
  rw [scaled_add, Nat.div_mul_cancel hdvd]

/-- A mantissa with two bits behind it, without its surplus. -/
theorem canonical_shiftRight {m : ℕ} {e : ℤ} (h : 2 ^ 52 ≤ m ∨ e ≤ -1074) (acc : Accuracy) :
    Canonical (ExtendedMantissa.ofMantissaAndAccuracy m acc >>> surplus m e).mantissa
      (e + surplus m e) := by
  have hmantissa : (ExtendedMantissa.ofMantissaAndAccuracy m acc).mantissa = m := by
    cases acc with
    | exact => rfl
    | inexact o => cases o <;> rfl
  rw [mantissa_shiftRight, hmantissa]
  exact canonical_div h

/-- What a canonical mantissa is rounded to may have one place too many. -/
theorem Canonical.rounded {em : ExtendedMantissa} {e : ℤ} (h : Canonical em.mantissa e) :
    Canonical (em.roundedMantissa / 2 ^ surplus em.roundedMantissa e)
      (e + surplus em.roundedMantissa e) := by
  refine canonical_div ?_
  have hlow := h.low
  have hfull := h.full
  have hrounded := roundedMantissa_cases em
  omega

/-- The canonical pair that a mantissa with two bits behind it is rounded to. -/
theorem rounded_neighbour {em : ExtendedMantissa} {e : ℤ} {q : ℚ} (hc : Canonical em.mantissa e)
    (hq : Holds em e q) {n : ℕ} {k : ℤ} (hn : Canonical n k) :
    (q ≤ scaled n k → scaled em.roundedMantissa e ≤ scaled n k) ∧
      (scaled n k ≤ q → scaled n k ≤ scaled em.roundedMantissa e) := by
  have hrounded := roundedMantissa_cases em
  constructor
  · intro hle
    rcases hrounded with h | ⟨h, hlost⟩
    · rw [h]
      exact hq.le.trans hle
    · rw [h]
      refine hc.gap hn (lt_of_le_of_ne (hq.le.trans hle) fun heq => hlost (hq.clear_iff.mp ?_))
      exact le_antisymm (hle.trans heq.symm.le) hq.le
  · intro hle
    by_contra hn'
    have hup : scaled em.mantissa e ≤ scaled em.roundedMantissa e :=
      (scaled_le_scaled_iff e).mpr (by omega)
    have hgap := hc.gap hn (hup.trans_lt (not_le.mp hn'))
    exact absurd (hgap.trans hle) (not_le.mpr hq.lt)

/-- What a mantissa is rounded to, once its surplus is given up. -/
theorem roundWithAccuracy_eq (acc : Accuracy) (s : Sign) {m : ℕ} {e : ℤ} {r n : ℕ} {k : ℤ}
    (hr : r = (ExtendedMantissa.ofMantissaAndAccuracy m acc >>> surplus m e).roundedMantissa)
    (hn : n = r / 2 ^ surplus r (e + surplus m e))
    (hk : k = e + surplus m e + surplus r (e + surplus m e)) :
    (n = 0 → roundWithAccuracy Format.binary64 s m e acc = .zero s) ∧
      ∀ h : 0 < n, roundWithAccuracy Format.binary64 s m e acc = .finite s n k h := by
  have hmantissa : (ExtendedMantissa.ofMantissaAndAccuracy r .exact >>>
      surplus r (e + surplus m e)).mantissa = n := by
    rw [mantissa_shiftRight, hn]
    rfl
  subst hr
  refine ⟨fun h => dif_pos (hmantissa.trans h), fun h => ?_⟩
  refine (dif_neg fun hz => h.ne' (hmantissa.symm.trans hz)).trans ?_
  congr 1
  exact hk.symm

/-- A number is a canonical pair that is not too great. -/
theorem Reads.exists_canonical {x : Float} {v : ℚ} (h : Reads x v) :
    ∃ n k, Canonical n k ∧ k ≤ 971 ∧ v = scaled n k := by
  cases h with
  | zero => exact ⟨0, -1074, ⟨by norm_num, le_refl _, .inr rfl⟩, by norm_num, by simp [scaled]⟩
  | finite h => exact ⟨_, _, (canonical_of_parts h).1, (canonical_of_parts h).2, rfl⟩

theorem reads_pack_zero (s : Sign) : Reads (.ofModel (.pack (.zero s))) 0 :=
  .zero (s := s) unpack_packedZero

theorem reads_pack {n : ℕ} {k : ℤ} (hn : 0 < n) (hc : Canonical n k) :
    971 < k ∧ IsInfinite (.ofModel (.pack (.finite .positive n k hn))) ∨
      Reads (.ofModel (.pack (.finite .positive n k hn))) (scaled n k) := by
  have hparts := parts_pack .positive hn hc
  split at hparts
  · exact .inr (.finite hparts)
  · next hk => exact .inl ⟨not_le.mp hk, hparts⟩

/-- **Rounding goes past no number.** -/
theorem rounds_pack {m : ℕ} {e : ℤ} {acc : Accuracy} {q : ℚ} (hm : 2 ^ 52 ≤ m ∨ e ≤ -1074)
    (hq : Holds (.ofMantissaAndAccuracy m acc) e q) :
    Rounds q (.ofModel (.pack (roundWithAccuracy Format.binary64 .positive m e acc))) := by
  let em := ExtendedMantissa.ofMantissaAndAccuracy m acc >>> surplus m e
  let r := em.roundedMantissa
  let n := r / 2 ^ surplus r (e + surplus m e)
  let k := e + surplus m e + surplus r (e + surplus m e)
  have hfirst : Canonical em.mantissa (e + surplus m e) := canonical_shiftRight hm acc
  have hc : Canonical n k := hfirst.rounded
  have hvalue : scaled n k = scaled r (e + surplus m e) := by
    refine scaled_div ?_ hfirst.low
    have := hfirst.lt
    have := roundedMantissa_cases em
    omega
  have hround := roundWithAccuracy_eq acc .positive (m := m) (e := e) (r := r) (n := n) (k := k)
    rfl rfl rfl
  -- The result is read as the canonical pair, if that is not too great.
  have hreads : 971 < k ∧ IsInfinite (.ofModel (.pack
      (roundWithAccuracy Format.binary64 .positive m e acc))) ∨
      Reads (.ofModel (.pack (roundWithAccuracy Format.binary64 .positive m e acc)))
        (scaled n k) := by
    rcases Nat.eq_zero_or_pos n with hzero | hpos
    · rw [hround.1 hzero, hzero]
      exact .inr (by simpa [scaled] using reads_pack_zero .positive)
    · rw [hround.2 hpos]
      exact reads_pack hpos hc
  constructor
  · intro b w hb hle
    obtain ⟨n', k', hc', hk', rfl⟩ := hb.exists_canonical
    have hle : scaled n k ≤ scaled n' k' :=
      hvalue.trans_le ((rounded_neighbour hfirst (hq.shiftRight _) hc').1 hle)
    rcases hreads with ⟨hk, -⟩ | hreads
    · exact absurd hle (not_le.mpr (hc'.scaled_lt hc (hk'.trans_lt hk)))
    · exact ⟨_, hreads, hle⟩
  · intro b w hb hle
    obtain ⟨n', k', hc', -, rfl⟩ := hb.exists_canonical
    have hle : scaled n' k' ≤ scaled n k :=
      ((rounded_neighbour hfirst (hq.shiftRight _) hc').2 hle).trans_eq hvalue.symm
    exact hreads.imp And.right fun hreads => ⟨_, hreads, hle⟩

/-! ### Products and quotients -/

theorem parts_mul (x y : Float) :
    x * y = .ofModel (.pack (UnpackedFloat.mul Format.binary64 (parts x) (parts y))) :=
  rfl

theorem parts_div (x y : Float) :
    x / y = .ofModel (.pack (UnpackedFloat.div Format.binary64 (parts x) (parts y))) :=
  rfl

theorem rounds_of_reads {x : Float} {v : ℚ} (h : Reads x v) : Rounds v x :=
  ⟨fun _ hle => ⟨v, h, hle⟩, fun _ hle => .inr ⟨v, h, hle⟩⟩

theorem rounds_pack_zero (s : Sign) : Rounds 0 (.ofModel (.pack (.zero s))) :=
  rounds_of_reads (reads_pack_zero s)

theorem holds_exact (m : ℕ) (e : ℤ) : Holds (.ofMantissaAndAccuracy m .exact) e (scaled m e) :=
  ⟨le_refl _, scaled_strictMono e (Nat.lt_succ_self m), by
    simp [ExtendedMantissa.ofMantissaAndAccuracy]⟩

theorem scaled_mul (m n : ℕ) (e k : ℤ) : scaled m e * scaled n k = scaled (m * n) (e + k) := by
  unfold scaled
  rw [zpow_add₀ two_ne_zero]
  push_cast
  ring

/-- A product of mantissas has places enough. -/
theorem Canonical.places_mul {m n : ℕ} {e k : ℤ} (h : Canonical m e) (hm : 0 < m)
    (h' : Canonical n k) (hn : 0 < n) : 2 ^ 52 ≤ m * n ∨ e + k ≤ -1074 := by
  have := h.low
  have := h'.low
  rcases h.full with hfull | he
  · exact .inl (hfull.trans (Nat.le_mul_of_pos_right m hn))
  · rcases h'.full with hfull | hk
    · exact .inl (hfull.trans (Nat.le_mul_of_pos_left n hm))
    · exact .inr (by omega)

theorem Reads.mul {x y : Float} {v w : ℚ} (hx : Reads x v) (hy : Reads y w) :
    Rounds (v * w) (x * y) := by
  rw [parts_mul]
  cases hx with
  | zero hx =>
    rw [zero_mul]
    cases hy with
    | zero hy | finite hy => rw [hx, hy]; exact rounds_pack_zero _
  | @finite m e hm hx =>
    cases hy with
    | zero hy => rw [hx, hy, mul_zero]; exact rounds_pack_zero _
    | @finite n k hn hy =>
      rw [hx, hy, scaled_mul]
      exact rounds_pack ((canonical_of_parts hx).1.places_mul hm (canonical_of_parts hy).1 hn)
        (holds_exact _ _)

theorem clear_accuracyOfFraction (m n d : ℕ) :
    ((ExtendedMantissa.ofMantissaAndAccuracy m (accuracyOfFraction n d)).roundBit = false ∧
      (ExtendedMantissa.ofMantissaAndAccuracy m (accuracyOfFraction n d)).stickyBit = false) ↔
      n = 0 := by
  unfold accuracyOfFraction
  split
  · next h => simp [h, ExtendedMantissa.ofMantissaAndAccuracy]
  · next h =>
    cases compare (2 * n) d <;> simp [h, ExtendedMantissa.ofMantissaAndAccuracy]

/-- A quotient between two mantissas next to one another. -/
theorem scaled_floor (m : ℕ) {n : ℕ} (hn : 0 < n) (e : ℤ) :
    scaled (m / n) e ≤ (m : ℚ) / n * 2 ^ e ∧ (m : ℚ) / n * 2 ^ e < scaled (m / n + 1) e ∧
      ((m : ℚ) / n * 2 ^ e = scaled (m / n) e ↔ m % n = 0) := by
  have hp : (0 : ℚ) < 2 ^ e := by positivity
  have hn' : (0 : ℚ) < n := Nat.cast_pos.mpr hn
  refine ⟨mul_le_mul_of_nonneg_right Nat.cast_div_le hp.le,
    mul_lt_mul_of_pos_right ((div_lt_iff₀ hn').mpr ?_) hp, ?_⟩
  · exact_mod_cast Nat.lt_mul_of_div_lt (Nat.lt_succ_self (m / n)) hn
  · rw [scaled, mul_left_inj' hp.ne', div_eq_iff hn'.ne', ← Nat.dvd_iff_mod_eq_zero]
    constructor
    · intro h
      exact ⟨m / n, by rw [Nat.mul_comm]; exact_mod_cast h⟩
    · intro h
      exact_mod_cast (Nat.div_mul_cancel h).symm

/-- A quotient with its remainder. -/
theorem holds_fraction {m n : ℕ} (hn : 0 < n) (e : ℤ) :
    Holds (.ofMantissaAndAccuracy (m / n) (accuracyOfFraction (m % n) n)) e
      ((m : ℚ) / n * 2 ^ e) := by
  obtain ⟨hle, hlt, hclear⟩ := scaled_floor m hn e
  have hmantissa : (ExtendedMantissa.ofMantissaAndAccuracy (m / n)
      (accuracyOfFraction (m % n) n)).mantissa = m / n := by
    unfold accuracyOfFraction
    split
    · rfl
    · cases compare (2 * (m % n)) n <;> rfl
  refine ⟨?_, ?_, ?_⟩
  · rwa [hmantissa]
  · rwa [hmantissa]
  · rwa [hmantissa, clear_accuracyOfFraction]

/-- Enough places are made for a quotient before it is rounded. -/
theorem exists_divCore {m n : ℕ} (hm : 0 < m) (hn : 0 < n) (e k : ℤ) :
    ∃ (a : ℕ) (t : ℤ), divCore Format.binary64 m e n k = (a / n, t, accuracyOfFraction (a % n) n) ∧
      scaled m e / scaled n k = (a : ℚ) / n * 2 ^ t ∧ (2 ^ 52 ≤ a / n ∨ t ≤ -1074) := by
  unfold divCore
  rw [show Format.binary64.targetExponent (totalExponent m e - totalExponent n k)
    = max (m.log2 + 1 + e - (n.log2 + 1 + k) - 53) (-1074) from rfl]
  dsimp only
  generalize ht : min (e - k) (max (m.log2 + 1 + e - (n.log2 + 1 + k) - 53 : ℤ) (-1074)) = t
  obtain ⟨j, hj⟩ : ∃ j : ℕ, e - k = t + j := ⟨(e - k - t).toNat, by omega⟩
  rw [hj, add_sub_cancel_left, Int.toNat_natCast, Nat.shiftLeft_eq]
  refine ⟨m * 2 ^ j, t, rfl, ?_, or_iff_not_imp_right.mpr fun hlow => ?_⟩
  · obtain rfl : e = k + (t + j) := by omega
    unfold scaled
    rw [zpow_add₀ two_ne_zero, zpow_add₀ two_ne_zero, zpow_natCast]
    push_cast
    field_simp
  · rw [Nat.le_div_iff_mul_le hn]
    calc 2 ^ 52 * n ≤ 2 ^ 52 * 2 ^ (n.log2 + 1) := Nat.mul_le_mul_left _ Nat.lt_log2_self.le
      _ = 2 ^ (52 + (n.log2 + 1)) := (pow_add ..).symm
      _ ≤ 2 ^ (m.log2 + j) := Nat.pow_le_pow_right (by norm_num) (by omega)
      _ = 2 ^ m.log2 * 2 ^ j := pow_add ..
      _ ≤ m * 2 ^ j := Nat.mul_le_mul_right _ (Nat.log2_self_le hm.ne')

theorem rounds_divCore {m n : ℕ} (hm : 0 < m) (hn : 0 < n) (e k : ℤ) :
    let (d, t, acc) := divCore Format.binary64 m e n k
    Rounds (scaled m e / scaled n k)
      (.ofModel (.pack (roundWithAccuracy Format.binary64 .positive d t acc))) := by
  obtain ⟨a, t, hcore, hvalue, hplaces⟩ := exists_divCore hm hn e k
  rw [hcore, hvalue]
  exact rounds_pack hplaces (holds_fraction hn t)

theorem Reads.div {x y : Float} {v w : ℚ} (hx : Reads x v) (hy : Reads y w) (hw : 0 < w) :
    Rounds (v / w) (x / y) := by
  rw [parts_div]
  cases hy with
  | zero => exact absurd hw (lt_irrefl 0)
  | @finite n k hn hy =>
    cases hx with
    | zero hx => rw [hx, hy, zero_div]; exact rounds_pack_zero _
    | @finite m e hm hx => rw [hx, hy]; exact rounds_divCore hm hn e k

/-! ### Past all numbers -/

theorem parts_pack_infinity (s : Sign) : parts (.ofModel (.pack (.infinity s))) = .infinity s :=
  unpack_packComponents s (-1#11) 0

theorem isNaN_pack : (Float.ofModel (.pack .notANumber)).isNaN = true := by
  have h : UnpackedFloat.unpack Format.binary64 (packedNaN Format.binary64) = .notANumber :=
    unpack_packedNaN
  exact isNaN_iff_parts.mpr h

theorem Reads.parts_of_pos {x : Float} {v : ℚ} (h : Reads x v) (hv : 0 < v) :
    ∃ m e hm, parts x = .finite .positive m e hm := by
  cases h with
  | zero => exact absurd hv (lt_irrefl 0)
  | finite h => exact ⟨_, _, _, h⟩

theorem Reads.not_isInfinite {x : Float} {v : ℚ} (h : Reads x v) : ¬ IsInfinite x := by
  intro hinfinite
  cases h with
  | zero h | finite h => cases h.symm.trans hinfinite

namespace IsInfinite

variable {x y : Float} {v : ℚ}

theorem mul (hx : IsInfinite x) (hy : IsInfinite y) : IsInfinite (x * y) := by
  unfold IsInfinite at *
  rw [parts_mul, hx, hy]
  exact parts_pack_infinity .positive

theorem mul_reads (hx : IsInfinite x) (hy : Reads y v) (hv : 0 < v) : IsInfinite (x * y) := by
  obtain ⟨m, e, hm, hy⟩ := hy.parts_of_pos hv
  unfold IsInfinite at *
  rw [parts_mul, hx, hy]
  exact parts_pack_infinity .positive

theorem reads_mul (hy : IsInfinite y) (hx : Reads x v) (hv : 0 < v) : IsInfinite (x * y) := by
  obtain ⟨m, e, hm, hx⟩ := hx.parts_of_pos hv
  unfold IsInfinite at *
  rw [parts_mul, hx, hy]
  exact parts_pack_infinity .positive

theorem isNaN_zero_mul (hy : IsInfinite y) (hx : Reads x 0) : (x * y).isNaN = true := by
  unfold IsInfinite at hy
  generalize hv : (0 : ℚ) = v at hx
  cases hx with
  | zero hx => rw [parts_mul, hx, hy]; exact isNaN_pack
  | @finite m e hm => exact absurd hv (scaled_pos hm e).ne

theorem isNaN_div (hx : IsInfinite x) (hy : IsInfinite y) : (x / y).isNaN = true := by
  unfold IsInfinite at *
  rw [parts_div, hx, hy]
  exact isNaN_pack

theorem reads_div (hy : IsInfinite y) (hx : Reads x v) : Reads (x / y) 0 := by
  unfold IsInfinite at hy
  cases hx with
  | zero hx | finite hx => rw [parts_div, hx, hy]; exact reads_pack_zero _

end IsInfinite

theorem isNaN_mul {x : Float} (h : x.isNaN = true) (y : Float) : (x * y).isNaN = true := by
  rw [parts_mul, isNaN_iff_parts.mp h]
  exact isNaN_pack

theorem isNaN_div {x : Float} (h : x.isNaN = true) (y : Float) : (x / y).isNaN = true := by
  rw [parts_div, isNaN_iff_parts.mp h]
  exact isNaN_pack

theorem isNaN_zero_div_zero {x y : Float} (hx : Reads x 0) (hy : Reads y 0) :
    (x / y).isNaN = true := by
  generalize hv : (0 : ℚ) = v at hx
  generalize hw : (0 : ℚ) = w at hy
  cases hx with
  | @finite m e hm => exact absurd hv (scaled_pos hm e).ne
  | zero hx =>
    cases hy with
    | @finite m e hm => exact absurd hw (scaled_pos hm e).ne
    | zero hy => rw [parts_div, hx, hy]; exact isNaN_pack

end Sortie.Decimal
