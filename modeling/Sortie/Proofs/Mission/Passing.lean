import Mathlib
import Sortie.Mission.Course

/-!
# Waypoints passed

After waypoint `k` the way covered is all legs before leg `k` and a part of that one.  As no leg is
worth less than nothing, it lies between what the legs before leg `k` are worth and what they are
with leg `k` (`Course.le_covered`, `Course.covered_le`).  So it is not less after a waypoint further
on, wherever the aircraft is seen then.  The legs need not add up to the total: what exceeds it is
cut off, and the limit keeps the order.

The progress of a flight is `Mission.progressIn` in floats (`Mission.gauge`), where a sum may be
rounded either way.  The theorem is about `Mission.progressIn` in exact numbers.
-/

namespace Sortie

/-! ### The limit -/

namespace Geo

variable {α : Type} [Zero α] [One α] [LinearOrder α]

theorem limitToUnit_eq (x : α) : limitToUnit x = min (max x 0) 1 := by
  unfold limitToUnit
  dsimp only
  have hmax : (if x < 0 then 0 else x) = max x 0 := by
    rw [max_comm, max_def_lt]
    split_ifs with h h' h'
    · exact absurd h' h.not_gt
    · rfl
    · rfl
    · exact (le_antisymm (not_lt.mp h') (not_lt.mp h))
  rw [hmax, min_comm, min_def_lt]

theorem limitToUnit_nonneg [ZeroLEOneClass α] (x : α) : 0 ≤ limitToUnit x := by
  rw [limitToUnit_eq]
  exact le_min (le_max_right x 0) zero_le_one

theorem limitToUnit_le_one (x : α) : limitToUnit x ≤ 1 := by
  rw [limitToUnit_eq]
  exact min_le_right _ 1

theorem limitToUnit_mono {x y : α} (h : x ≤ y) : limitToUnit x ≤ limitToUnit y := by
  rw [limitToUnit_eq, limitToUnit_eq]
  exact min_le_min_right 1 (max_le_max_right 0 h)

end Geo

/-! ### Shares -/

namespace Course

open Geo

section

variable {α : Type} [AddMonoid α]

theorem sum_eq (xs : List α) : sum xs = xs.sum :=
  List.sum_eq_foldl.symm

/-- The shares through leg `k` are those before it and its own. -/
theorem sum_take_add_one (xs : List α) (k : Nat) :
    sum (xs.take (k + 1)) = sum (xs.take k) + xs[k]?.getD 0 := by
  rw [sum_eq, sum_eq, List.take_add_one, List.sum_append]
  cases xs[k]? <;> simp

theorem share_nonneg [Preorder α] {xs : List α} (hxs : ∀ x ∈ xs, 0 ≤ x) (k : Nat) :
    0 ≤ xs[k]?.getD 0 := by
  cases hx : xs[k]? with
  | none => exact le_rfl
  | some x => exact hxs x (List.mem_of_getElem? hx)

end

variable {α : Type} [Field α] [LinearOrder α] [IsStrictOrderedRing α]

theorem shares_nonneg {legs : List α} (h : ∀ leg ∈ legs, 0 ≤ leg) (total : α) :
    ∀ x ∈ shares total legs, 0 ≤ x := by
  intro x hx
  obtain ⟨leg, hleg, rfl⟩ := List.mem_map.mp hx
  split
  · next htotal => exact div_nonneg (h leg hleg) htotal.le
  · exact le_rfl

section

variable {xs : List α} (hxs : ∀ x ∈ xs, 0 ≤ x)

include hxs

theorem sum_take_mono {k l : Nat} (h : k ≤ l) : sum (xs.take k) ≤ sum (xs.take l) := by
  rw [sum_eq, sum_eq]
  have hsub : (xs.take k).Sublist (xs.take l) := List.take_sublist_take_left h
  exact hsub.sum_le_sum fun x hx => hxs x (List.mem_of_mem_take hx)

/-- At least the legs before leg `k` are covered. -/
theorem le_covered (k : Nat) {part : α} (hpart : 0 ≤ part) :
    limitToUnit (sum (xs.take k)) ≤ covered xs k part := by
  have hleg := mul_nonneg (share_nonneg hxs k) hpart
  exact limitToUnit_mono (le_add_of_nonneg_right hleg)

/-- At most the legs through leg `k` are covered. -/
theorem covered_le (k : Nat) {part : α} (hpart : part ≤ 1) :
    covered xs k part ≤ limitToUnit (sum (xs.take (k + 1))) := by
  have hleg := mul_le_of_le_one_right (share_nonneg hxs k) hpart
  rw [sum_take_add_one]
  exact limitToUnit_mono (add_le_add_right hleg _)

/-- What is covered on a later leg is not less than what is covered on an earlier one. -/
theorem covered_le_covered {k l : Nat} (hkl : k < l) {part later : α} (hpart : part ≤ 1)
    (hlater : 0 ≤ later) : covered xs k part ≤ covered xs l later :=
  calc covered xs k part
    _ ≤ limitToUnit (sum (xs.take (k + 1))) := covered_le hxs k hpart
    _ ≤ limitToUnit (sum (xs.take l)) := limitToUnit_mono (sum_take_mono hxs hkl)
    _ ≤ covered xs l later := le_covered hxs l hlater

end

end Course

/-! ### Missions -/

namespace Mission

variable {α : Type} [Field α] [LinearOrder α] [IsStrictOrderedRing α] {g : Gauge α}

theorem weightsIn_nonneg (hdistance : ∀ a b, 0 ≤ g.distance a b) (m : Mission) :
    ∀ x ∈ m.weightsIn g, 0 ≤ x := by
  refine Course.shares_nonneg (fun leg hleg => ?_) _
  obtain ⟨index, -, rfl⟩ := List.mem_map.mp hleg
  unfold legIn
  split
  · exact hdistance _ _
  · exact le_rfl

/-- What is covered after a waypoint is a part of the leg that leaves it. -/
theorem exists_part (hpart : ∀ a b p, 0 ≤ g.part a b p ∧ g.part a b p ≤ 1) {m : Mission} {k : Nat}
    (hk : k < m.waypoints.length) (place : Geo.Point) : ∃ part, 0 ≤ part ∧ part ≤ 1 ∧
      m.progressIn g place k = Course.covered (m.weightsIn g) k part := by
  unfold progressIn
  rw [List.getElem?_eq_getElem hk]
  cases m.next? k with
  | none => exact ⟨0, le_rfl, zero_le_one, rfl⟩
  | some next => exact ⟨_, (hpart _ _ _).1, (hpart _ _ _).2, rfl⟩

/-- **Passing a waypoint never lowers the progress**, wherever the aircraft is seen before and
after it, and the progress is from `0` to `1`.  The estimate of the way may be anything, and so may
the distances, unless they are negative. -/
theorem progressIn_passing (hdistance : ∀ a b, 0 ≤ g.distance a b)
    (hpart : ∀ a b p, 0 ≤ g.part a b p ∧ g.part a b p ≤ 1) (m : Mission) {k : Nat}
    (hk : k + 1 < m.waypoints.length) (p q : Geo.Point) :
    m.progressIn g p k ∈ Set.Icc 0 1 ∧ m.progressIn g q (k + 1) ∈ Set.Icc 0 1 ∧
      m.progressIn g p k ≤ m.progressIn g q (k + 1) := by
  obtain ⟨before, -, hbefore, hp⟩ := exists_part hpart (Nat.lt_of_succ_lt hk) p
  obtain ⟨after, hafter, -, hq⟩ := exists_part hpart hk q
  rw [hp, hq]
  refine ⟨⟨?_, ?_⟩, ⟨?_, ?_⟩, ?_⟩
  · exact Geo.limitToUnit_nonneg _
  · exact Geo.limitToUnit_le_one _
  · exact Geo.limitToUnit_nonneg _
  · exact Geo.limitToUnit_le_one _
  · exact Course.covered_le_covered (weightsIn_nonneg hdistance m) (Nat.lt_succ_self k) hbefore
      hafter

def waypointAt (longitude : Float) : Waypoint :=
  { place := ⟨0, longitude⟩, altitude := 30, speed := 5 }

/-- Three waypoints on the equator. -/
def equatorial : Mission :=
  { id := "line", name := "line", kind := .standard
    waypoints := [waypointAt 0, waypointAt 1, waypointAt 2] }

/-- Legs of a hundred metres, of which three quarters are covered, on a way thought to be shorter
than they are. -/
def shortGauge : Gauge ℚ where
  distance a b := if a = b then 0 else 100
  part a b _ := if a = b then 0 else 3 / 4
  estimate := some 150

theorem progressIn_passing_equatorial :
    equatorial.progressIn shortGauge ⟨0, 0⟩ 0 = 1 / 2 ∧
    equatorial.progressIn shortGauge ⟨0, 0⟩ 1 = 1 ∧
    equatorial.progressIn shortGauge ⟨0, 0⟩ 0 ∈ Set.Icc 0 1 ∧
    equatorial.progressIn shortGauge ⟨0, 0⟩ 1 ∈ Set.Icc 0 1 ∧
    equatorial.progressIn shortGauge ⟨0, 0⟩ 0 ≤ equatorial.progressIn shortGauge ⟨0, 0⟩ 1 := by
  refine ⟨by decide +kernel, by decide +kernel, ?_⟩
  refine equatorial.progressIn_passing (fun a b => ?_) (fun a b p => ?_) (by decide) _ _
  · show 0 ≤ if a = b then (0 : ℚ) else 100
    split <;> norm_num
  · show 0 ≤ (if a = b then (0 : ℚ) else 3 / 4) ∧ (if a = b then (0 : ℚ) else 3 / 4) ≤ 1
    split <;> norm_num

end Mission

end Sortie
