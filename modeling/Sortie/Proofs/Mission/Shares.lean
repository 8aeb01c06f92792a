import Sortie.Proofs.Command.Completion
import Sortie.Proofs.Decimal.Places
import Sortie.Run.Flight

/-!
# Shares of the way

A share of the way is limited to `0 … 1`, or it is a percentage of waypoints passed.  Either way it
is a number from `0` to `1` unless it is no number at all (`Flight.share_cases`), and rounded to
decimal places it stays one.  It is none if what is limited cannot be compared, and rounding leaves
none if the power of ten is out of range.
-/

namespace Sortie.Decimal

open Float.Model (UnpackedFloat)
open Float.Model.UnpackedFloat

theorem reads_natZero : Reads 0 0 := by
  have hzero : classify 0 = .finite ⟨false, 0, -1074⟩ := by decide +kernel
  simpa [scaled] using reads_of_classify hzero

theorem reads_natOne : Reads 1 1 := by
  have hone : classify 1 = .finite ⟨false, 2 ^ 52, -52⟩ := by decide +kernel
  have hread := reads_of_classify hone
  norm_num [scaled] at hread
  exact hread

theorem reads_hundred : Reads 100 100 := by
  have hhundred : classify 100 = .finite ⟨false, 100 * 2 ^ 46, -46⟩ := by decide +kernel
  have hread := reads_of_classify hhundred
  norm_num [scaled] at hread
  exact hread

variable {x y : Float}

/-- A number from `0` to `1`. -/
def InUnit (x : Float) : Prop :=
  ∃ v, Reads x v ∧ v ≤ 1

namespace InUnit

variable {z : Float}

theorem isNaN_eq (h : InUnit x) : x.isNaN = false := by
  obtain ⟨v, hx, -⟩ := h
  exact hx.isNaN_eq

theorem le_of_not_le (hx : InUnit x) (hy : InUnit y) (h : ¬ y ≤ x) : x ≤ y := by
  obtain ⟨v, hx, -⟩ := hx
  obtain ⟨w, hy, -⟩ := hy
  rw [hy.le_iff hx, not_le] at h
  exact (hx.le_iff hy).mpr h.le

theorem le_trans (hx : InUnit x) (hy : InUnit y) (hz : InUnit z) (hxy : x ≤ y) (hyz : y ≤ z) :
    x ≤ z := by
  obtain ⟨u, hx, -⟩ := hx
  obtain ⟨v, hy, -⟩ := hy
  obtain ⟨w, hz, -⟩ := hz
  exact (hx.le_iff hz).mpr (((hx.le_iff hy).mp hxy).trans ((hy.le_iff hz).mp hyz))

end InUnit

theorem parts_natZero : parts 0 = .zero .positive := rfl

/-- A number that is not less than zero. -/
theorem reads_of_not_lt (h : ¬ x < 0) (hn : x.isNaN = false) : IsInfinite x ∨ ∃ v, Reads x v := by
  rw [lt_iff_parts, parts_natZero] at h
  cases hx : parts x with
  | notANumber =>
    rw [isNaN_iff_parts.mpr hx] at hn
    cases hn
  | zero s => exact .inr ⟨0, .zero hx⟩
  | infinity s =>
    cases s with
    | positive => exact .inl hx
    | negative =>
      rw [hx] at h
      exact absurd rfl h
  | finite s m e hm =>
    cases s with
    | positive => exact .inr ⟨_, .finite hx⟩
    | negative =>
      rw [hx] at h
      exact absurd rfl h

/-- A number that is past all others is not below one of them. -/
theorem IsInfinite.lt_of_reads {v : ℚ} (hx : IsInfinite x) (hy : Reads y v) : y < x := by
  unfold IsInfinite at hx
  rw [lt_iff_parts, hx]
  cases hy with
  | zero hy | finite hy =>
    rw [hy]
    rfl

theorem IsInfinite.not_le_of_reads {v : ℚ} (hx : IsInfinite x) (hy : Reads y v) : ¬ x ≤ y := by
  unfold IsInfinite at hx
  rw [le_iff_parts, hx]
  cases hy with
  | zero hy | finite hy =>
    rw [hy]
    exact Bool.false_ne_true

theorem inUnit_iff : InUnit x ↔ 0 ≤ x ∧ x ≤ 1 := by
  constructor
  · rintro ⟨v, hx, hv⟩
    exact ⟨(reads_natZero.le_iff hx).mpr hx.nonneg, (hx.le_iff reads_natOne).mpr hv⟩
  · rintro ⟨hnonneg, hle⟩
    have hneg : ¬ x < 0 := by
      rw [le_iff_parts, parts_natZero] at hnonneg
      rw [lt_iff_parts, parts_natZero]
      cases hx : parts x with
      | notANumber | zero s => exact Bool.false_ne_true
      | infinity s | finite s m e hm =>
        rw [hx] at hnonneg
        cases s with
        | positive => exact Bool.false_ne_true
        | negative => cases hnonneg
    rcases reads_of_not_lt hneg (isNaN_eq_of_le hle).1 with hinfinite | ⟨v, hx⟩
    · exact absurd hle (hinfinite.not_le_of_reads reads_natOne)
    · exact ⟨v, hx, (hx.le_iff reads_natOne).mp hle⟩

/-- What is limited is from `0` to `1`, unless it cannot be compared. -/
theorem limitToUnit_cases (x : Float) :
    (Geo.limitToUnit x).isNaN = true ∨ InUnit (Geo.limitToUnit x) := by
  have hone : InUnit 1 := ⟨1, reads_natOne, le_rfl⟩
  unfold Geo.limitToUnit
  dsimp only
  generalize hy : (if x < 0 then 0 else x) = y
  have hcases : y.isNaN = true ∨ IsInfinite y ∨ ∃ v, Reads y v := by
    rw [← hy]
    split
    · exact .inr (.inr ⟨0, reads_natZero⟩)
    · next hneg =>
      cases hn : x.isNaN with
      | true => exact .inl rfl
      | false => exact .inr (reads_of_not_lt hneg hn)
  split
  · exact .inr hone
  · next hlimit =>
    rcases hcases with hn | hinfinite | ⟨v, hread⟩
    · exact .inl hn
    · exact absurd (hinfinite.lt_of_reads reads_natOne) hlimit
    · refine .inr ⟨v, hread, not_lt.mp fun hlt => hlimit ?_⟩
      exact (reads_natOne.lt_iff hread).mpr hlt

/-- A number is rounded to itself. -/
theorem Rounds.reads {v : ℚ} (h : Rounds v x) (hy : Reads y v) : Reads x v := by
  obtain ⟨r, hr, hle⟩ := h.le hy le_rfl
  rcases h.ge hy le_rfl with hinfinite | ⟨r', hr', hge⟩
  · exact absurd hinfinite hr.not_isInfinite
  · have hsame : r' ≤ r := (hr'.le_iff hr).mp ((hr.le_iff hr).mpr le_rfl)
    rwa [le_antisymm hle (hge.trans hsame)] at hr

/-! ### Rounded shares -/

section

variable (h : x.isNaN = true ∨ InUnit x) (precision : ℕ)

include h

theorem isNaN_roundTo_iff :
    (roundTo x precision).isNaN = true ↔ ¬ InRange precision ∨ x.isNaN = true := by
  rcases h with hn | ⟨v, hx, hv⟩
  · exact iff_of_true (isNaN_roundTo hn precision) (.inr hn)
  · by_cases hrange : InRange precision
    · obtain ⟨r, hr, -⟩ := roundTo_of_inRange hrange hx hv
      rw [hr.isNaN_eq, hx.isNaN_eq]
      simp [hrange]
    · exact iff_of_true (roundTo_of_not_inRange hrange hx) (.inl hrange)

theorem inUnit_roundTo (hn : (roundTo x precision).isNaN = false) :
    InUnit (roundTo x precision) := by
  rw [Bool.eq_false_iff, ne_eq, isNaN_roundTo_iff h, not_or, not_not] at hn
  obtain ⟨v, hx, hv⟩ := h.resolve_left hn.2
  exact roundTo_of_inRange hn.1 hx hv

end

end Sortie.Decimal

namespace Sortie

open Decimal

namespace Sequence

/-- The percentage of waypoints passed is the exact one, rounded. -/
theorem rounds_percent {s : Sequence} (hs : s.waypointCount ≤ 2 ^ 45) (latest : Nat) :
    Rounds (s.exactPercent latest) (s.percent latest) := by
  have hpassed := s.passed_le latest
  have htotal := (s.total_le latest).trans hs
  rw [exactPercent_eq, percent, percentIn]
  generalize s.passed latest = counts at *
  obtain ⟨passed, total⟩ := counts
  dsimp only at *
  split
  · next hzero =>
    rw [hzero, Nat.cast_zero, div_zero]
    exact rounds_of_reads reads_natZero
  · next hne =>
    -- So many waypoints are few enough for a hundred times their number to be exact.
    have hexact : Reads (ofNat (passed * 100)) (passed * 100 : ℕ) := reads_ofNat (by omega)
    have hproduct : Reads (ofNat passed * 100) (passed * 100) := by
      rw [Nat.cast_mul, Nat.cast_ofNat] at hexact
      exact ((reads_ofNat (by omega)).mul reads_hundred).reads hexact
    exact hproduct.div (reads_ofNat (by omega)) (Nat.cast_pos.mpr (Nat.pos_of_ne_zero hne))

/-- The percentage of waypoints passed is a hundred at most. -/
theorem reads_percent {s : Sequence} (hs : s.waypointCount ≤ 2 ^ 45) (latest : Nat) :
    ∃ v, Reads (s.percent latest) v ∧ v ≤ 100 :=
  (rounds_percent hs latest).le reads_hundred (s.exactPercent_le latest)

end Sequence

/-- A share measured is a number from `0` to `1`, or none at all. -/
theorem Run.Flight.share_cases {f : Run.Flight} (hs : f.commands.waypointCount ≤ 2 ^ 45)
    (place : Option Geo.Point) (latest waypoint : Nat) :
    (f.share place latest waypoint).isNaN = true ∨ InUnit (f.share place latest waypoint) := by
  unfold share
  split
  · next w hw =>
    unfold Mission.progress Mission.progressIn
    rw [hw]
    exact limitToUnit_cases _
  · obtain ⟨v, hv, hle⟩ := Sequence.reads_percent hs latest
    have hratio : v / 100 ≤ 1 := by linarith
    exact .inr ((hv.div reads_hundred (by norm_num)).le reads_natOne hratio)

end Sortie
