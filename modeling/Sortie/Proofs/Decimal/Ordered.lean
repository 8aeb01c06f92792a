import Mathlib
import Sortie.Proofs.Decimal.Values
import Sortie.Proofs.Mission.Sameness

/-!
# Numbers in order

A number is compared by a key in a linear order: its sign and whether it is infinite, then its
exponent, then its mantissa (`compares_key`).  So floats that are not `NaN` are in a linear preorder,
and `NaN` is comparable with nothing.  `Keeps x y` says that `y` is not behind `x`; a number that
is none holds nothing up.
-/

namespace Sortie.Decimal

open Float.Model (UnpackedFloat)
open Float.Model.UnpackedFloat

/-- What a number is compared by. -/
def key : UnpackedFloat → ℤ ×ₗ ℤ ×ₗ ℤ
  | .notANumber | .zero _ => toLex (0, toLex (0, 0))
  | .infinity .negative => toLex (-2, toLex (0, 0))
  | .infinity .positive => toLex (2, toLex (0, 0))
  | .finite .negative m e _ => toLex (-1, toLex (-e, -m))
  | .finite .positive m e _ => toLex (1, toLex (e, m))

/-- How mantissas compare: by their exponents first. -/
theorem compare_then_cases (e k : ℤ) (m n : ℕ) :
    (compare e k).then (compare m n) = .lt ∧ (e < k ∨ e = k ∧ m < n) ∨
    (compare e k).then (compare m n) = .eq ∧ e = k ∧ m = n ∨
    (compare e k).then (compare m n) = .gt ∧ (k < e ∨ k = e ∧ n < m) := by
  rcases lt_trichotomy e k with h | rfl | h
  · exact .inl ⟨by rw [compare_lt_iff_lt.mpr h]; rfl, .inl h⟩
  · have hthen : (compare e e).then (compare m n) = compare m n := by
      rw [compare_eq_iff_eq.mpr rfl]
      rfl
    rw [hthen]
    rcases lt_trichotomy m n with hm | hm | hm
    · exact .inl ⟨compare_lt_iff_lt.mpr hm, .inr ⟨rfl, hm⟩⟩
    · exact .inr (.inl ⟨compare_eq_iff_eq.mpr hm, rfl, hm⟩)
    · exact .inr (.inr ⟨compare_gt_iff_gt.mpr hm, .inr ⟨rfl, hm⟩⟩)
  · exact .inr (.inr ⟨by rw [compare_gt_iff_gt.mpr h]; rfl, .inl h⟩)

/-- **Numbers are compared by their keys.** -/
theorem compares_key {x y : UnpackedFloat} (hx : x ≠ .notANumber) (hy : y ≠ .notANumber) :
    ∃ o, x.compare y = some o ∧ o.Compares (key x) (key y) := by
  have hlt {a b : ℤ} {p q : ℤ ×ₗ ℤ} (h : a < b) : toLex (a, p) < toLex (b, q) :=
    Prod.Lex.toLex_lt_toLex.mpr (.inl h)
  have hfinite {s a b c d : ℤ} (h : a < c ∨ a = c ∧ b < d) :
      toLex (s, toLex (a, b)) < toLex (s, toLex (c, d)) :=
    Prod.Lex.toLex_lt_toLex.mpr (.inr ⟨rfl, Prod.Lex.toLex_lt_toLex.mpr h⟩)
  cases x with
  | notANumber => exact absurd rfl hx
  | zero s =>
    cases y with
    | notANumber => exact absurd rfl hy
    | zero t => exact ⟨.eq, rfl, rfl⟩
    | infinity t | finite t =>
      cases t with
      | negative => exact ⟨.gt, rfl, hlt (by decide)⟩
      | positive => exact ⟨.lt, rfl, hlt (by decide)⟩
  | infinity s =>
    cases y with
    | notANumber => exact absurd rfl hy
    | infinity t =>
      cases s <;> cases t
      · exact ⟨.eq, rfl, rfl⟩
      · exact ⟨.lt, rfl, hlt (by decide)⟩
      · exact ⟨.gt, rfl, hlt (by decide)⟩
      · exact ⟨.eq, rfl, rfl⟩
    | zero t | finite t =>
      cases s <;> cases t
      · exact ⟨.lt, rfl, hlt (by decide)⟩
      · exact ⟨.lt, rfl, hlt (by decide)⟩
      · exact ⟨.gt, rfl, hlt (by decide)⟩
      · exact ⟨.gt, rfl, hlt (by decide)⟩
  | finite s m e hm =>
    cases y with
    | notANumber => exact absurd rfl hy
    | zero t =>
      cases s with
      | negative => exact ⟨.lt, rfl, hlt (by decide)⟩
      | positive => exact ⟨.gt, rfl, hlt (by decide)⟩
    | infinity t =>
      cases s <;> cases t
      · exact ⟨.gt, rfl, hlt (by decide)⟩
      · exact ⟨.lt, rfl, hlt (by decide)⟩
      · exact ⟨.gt, rfl, hlt (by decide)⟩
      · exact ⟨.lt, rfl, hlt (by decide)⟩
    | finite t n k hn =>
      cases s <;> cases t
      -- Of two negative numbers the one with the greater mantissa comes first.
      · refine ⟨((compare e k).then (compare m n)).swap, rfl, ?_⟩
        rcases compare_then_cases e k m n with ⟨ho, h⟩ | ⟨ho, rfl, rfl⟩ | ⟨ho, h⟩
        · rw [ho]
          exact hfinite (by omega)
        · rw [ho]
          exact rfl
        · rw [ho]
          exact hfinite (by omega)
      · exact ⟨.lt, rfl, hlt (by decide)⟩
      · exact ⟨.gt, rfl, hlt (by decide)⟩
      · refine ⟨(compare e k).then (compare m n), rfl, ?_⟩
        rcases compare_then_cases e k m n with ⟨ho, h⟩ | ⟨ho, rfl, rfl⟩ | ⟨ho, h⟩
        · rw [ho]
          exact hfinite (by omega)
        · rw [ho]
          exact rfl
        · rw [ho]
          exact hfinite (by omega)

variable {x y z : Float}

theorem parts_ne (h : x.isNaN = false) : parts x ≠ .notANumber := by
  intro hn
  rw [isNaN_iff_parts.mpr hn] at h
  cases h

theorem le_iff_key (hx : x.isNaN = false) (hy : y.isNaN = false) :
    x ≤ y ↔ key (parts x) ≤ key (parts y) := by
  obtain ⟨o, ho, hc⟩ := compares_key (parts_ne hx) (parts_ne hy)
  rw [le_iff_parts, UnpackedFloat.le, ho]
  cases o with
  | lt => exact iff_of_true rfl (le_of_lt hc)
  | eq => exact iff_of_true rfl (le_of_eq hc)
  | gt => exact iff_of_false Bool.false_ne_true (not_le_of_gt hc)

theorem lt_iff_key (hx : x.isNaN = false) (hy : y.isNaN = false) :
    x < y ↔ key (parts x) < key (parts y) := by
  obtain ⟨o, ho, hc⟩ := compares_key (parts_ne hx) (parts_ne hy)
  rw [lt_iff_parts, UnpackedFloat.lt, ho]
  cases o with
  | lt => exact iff_of_true rfl hc
  | eq => exact iff_of_false Bool.false_ne_true (not_lt_of_ge (ge_of_eq hc))
  | gt => exact iff_of_false Bool.false_ne_true (not_lt_of_gt hc)

theorem le_of_lt (h : x < y) : x ≤ y := by
  rw [lt_iff_parts, UnpackedFloat.lt, beq_iff_eq] at h
  rw [le_iff_parts, UnpackedFloat.le, h]
  rfl

theorem le_of_not_lt (hx : x.isNaN = false) (hy : y.isNaN = false) (h : ¬ x < y) : y ≤ x := by
  rw [lt_iff_key hx hy, not_lt] at h
  exact (le_iff_key hy hx).mpr h

theorem beq_iff_parts : (x == y) = true ↔ (parts x).beq (parts y) = true := Iff.rfl

theorem le_of_beq (h : (x == y) = true) : x ≤ y := by
  rw [beq_iff_parts, UnpackedFloat.beq, beq_iff_eq] at h
  rw [le_iff_parts, UnpackedFloat.le, h]
  rfl

/-- `y` is not behind `x`. -/
def Keeps (x y : Float) : Prop :=
  x.isNaN = true ∨ x ≤ y

namespace Keeps

theorem refl (x : Float) : Keeps x x := by
  cases hx : x.isNaN with
  | true => exact .inl hx
  | false => exact .inr ((le_iff_key hx hx).mpr le_rfl)

theorem trans (h : Keeps x y) (h' : Keeps y z) : Keeps x z := by
  rcases h with h | h
  · exact .inl h
  · obtain ⟨hx, hy⟩ := isNaN_eq_of_le h
    rcases h' with h' | h'
    · cases hy.symm.trans h'
    · have hz := (isNaN_eq_of_le h').2
      exact .inr ((le_iff_key hx hz).mpr
        (((le_iff_key hx hy).mp h).trans ((le_iff_key hy hz).mp h')))

theorem of_same (h : Same x y) : Keeps x y := by
  rcases h with rfl | h
  · exact refl x
  · exact .inr (le_of_beq h)

end Keeps

end Sortie.Decimal
