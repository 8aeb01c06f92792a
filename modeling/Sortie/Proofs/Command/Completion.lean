import Mathlib
import Sortie.Proofs.Command.Indices

/-!
# What is completed at an index

What a sequence says of an index is read off different parts of it: the last waypoint passed off
the whole, the first and the last one reached off the body, the return off where the body ends, and
the percentage off both.  They all come back to one count (`waypointsUpTo`), because a count over
the body is that over the whole, limited to what the body has (`waypointCount_take_body`).  So a
greater index has never completed less, and the ends of the percentage are the first and the last
waypoint (`completed_mono`), wherever returns stand and whatever comes behind them.

A sequence has its percentage in floats (`percent`), rounded.  The same percentage is taken exactly
here, as the quotient of the two counts (`exactPercent`).
-/

namespace Sortie

/-- Whether an index is reached does not change once it is. -/
theorem monotone_any_le (index : Option Nat) : Monotone fun item => index.any (· ≤ item) := by
  intro i j hij
  cases index with
  | none => exact le_rfl
  | some k =>
    rw [Bool.le_iff_imp]
    simp only [Option.any_some, decide_eq_true_eq]
    exact fun hi => hi.trans hij

namespace Sequence

variable (s : Sequence) {i j latest n : Nat}

/-! ### Counts -/

theorem waypointsUpTo_mono : Monotone s.waypointsUpTo :=
  fun _ _ h => s.waypointCount_take_mono (Nat.succ_le_succ h)

theorem passed_le (latest : Nat) : (s.passed latest).1 ≤ (s.passed latest).2 :=
  Nat.min_le_right _ _

theorem total_le (latest : Nat) : (s.passed latest).2 ≤ s.waypointCount :=
  (List.takeWhile_sublist _).countP_le

/-- The waypoints passed are those of the body up to the index. -/
theorem passed_eq (latest : Nat) :
    s.passed latest = (waypointCount (s.body.take (latest + 1)), s.body.waypointCount) := by
  rw [waypointCount_take_body]
  rfl

theorem before?_mono (h : i ≤ j) : before? i ≤ before? j := by
  cases i with
  | zero => exact Option.none_le
  | succ i =>
    cases j with
    | zero => exact absurd h (Nat.not_succ_le_zero i)
    | succ j => exact Option.some_le_some.mpr (Nat.le_of_succ_le_succ h)

variable {s}

theorem findIdx?_any_le_iff {α : Type} {p : α → Bool} {l : List α} :
    (l.findIdx? p).any (· ≤ n) = true ↔ 0 < (l.take (n + 1)).countP p := by
  rw [List.countP_pos_iff]
  cases h : l.findIdx? p with
  | none =>
    have hnone := List.findIdx?_eq_none_iff.mp h
    simp only [Option.any_none, Bool.false_eq_true, false_iff, not_exists, not_and]
    intro a ha hp
    rw [hnone a (List.mem_of_mem_take ha)] at hp
    cases hp
  | some k =>
    obtain ⟨hk, hp, hfirst⟩ := List.findIdx?_eq_some_iff_getElem.mp h
    simp only [Option.any_some, decide_eq_true_eq]
    constructor
    · intro hkn
      exact ⟨l[k], List.mem_take_iff_getElem.mpr ⟨k, by omega, rfl⟩, hp⟩
    · rintro ⟨a, ha, hpa⟩
      obtain ⟨i, hi, rfl⟩ := List.mem_take_iff_getElem.mp ha
      refine Nat.not_lt.mp fun hlt => ?_
      exact hfirst i (by omega) hpa

/-- The first waypoint is reached when any of the body is passed. -/
theorem reachedFirst_iff : s.reachedFirst latest = true ↔ 0 < (s.passed latest).1 := by
  rw [passed_eq]
  exact findIdx?_any_le_iff

/-- The last waypoint is reached when all of the body are passed, and there are some. -/
theorem reachedLast_iff_passed :
    s.reachedLast latest = true ↔
      0 < (s.passed latest).2 ∧ (s.passed latest).1 = (s.passed latest).2 := by
  rw [reachedLast_iff]
  exact and_congr_right' min_eq_right_iff.symm

/-! ### The percentage -/

/-- The percentage without any rounding. -/
def exactPercent (s : Sequence) (latest : Nat) : ℚ :=
  s.percentIn Nat.cast latest

theorem exactPercent_eq (s : Sequence) (latest : Nat) :
    s.exactPercent latest = (s.passed latest).1 * 100 / (s.passed latest).2 := by
  unfold exactPercent percentIn
  dsimp only
  split
  · next hzero => rw [hzero, Nat.cast_zero, div_zero]
  · rfl

theorem exactPercent_nonneg (s : Sequence) (latest : Nat) : 0 ≤ s.exactPercent latest := by
  rw [exactPercent_eq]
  positivity

theorem exactPercent_le (s : Sequence) (latest : Nat) : s.exactPercent latest ≤ 100 := by
  have hle : ((s.passed latest).1 : ℚ) ≤ (s.passed latest).2 := Nat.cast_le.mpr (s.passed_le latest)
  rw [exactPercent_eq, mul_comm]
  exact div_le_of_le_mul₀ (Nat.cast_nonneg _) (by norm_num)
    (mul_le_mul_of_nonneg_left hle (by norm_num))

theorem exactPercent_mono (s : Sequence) : Monotone s.exactPercent := by
  intro a b hab
  have hpassed : (s.passed a).1 ≤ (s.passed b).1 := min_le_min_right _ (s.waypointsUpTo_mono hab)
  rw [exactPercent_eq, exactPercent_eq]
  show _ / (s.body.waypointCount : ℚ) ≤ _ / (s.body.waypointCount : ℚ)
  gcongr

theorem exactPercent_pos_iff : 0 < s.exactPercent latest ↔ s.reachedFirst latest = true := by
  rw [exactPercent_eq, reachedFirst_iff]
  constructor
  · intro hpos
    refine Nat.pos_of_ne_zero fun hzero => ?_
    rw [hzero, Nat.cast_zero, zero_mul, zero_div] at hpos
    exact lt_irrefl _ hpos
  · intro hpassed
    have htotal := hpassed.trans_le (s.passed_le latest)
    positivity

theorem exactPercent_eq_hundred_iff :
    s.exactPercent latest = 100 ↔ s.reachedLast latest = true := by
  rw [exactPercent_eq, reachedLast_iff_passed]
  rcases Nat.eq_zero_or_pos (s.passed latest).2 with hzero | hpos
  · rw [hzero, Nat.cast_zero, div_zero]
    simp
  · have hne : ((s.passed latest).2 : ℚ) ≠ 0 := Nat.cast_ne_zero.mpr hpos.ne'
    rw [div_eq_iff hne, mul_comm, mul_right_inj' (by norm_num), Nat.cast_inj]
    exact (and_iff_right hpos).symm

/-! ### Two indices -/

theorem reachedFirst_of_reachedLast (h : s.reachedLast latest = true) :
    s.reachedFirst latest = true := by
  obtain ⟨hpos, hall⟩ := reachedLast_iff_passed.mp h
  exact reachedFirst_iff.mpr (hall ▸ hpos)

theorem isReturning_mono (s : Sequence) : Monotone s.isReturning :=
  fun _ _ h => monotone_any_le s.returnIndex? (Nat.succ_le_succ h)

/-- **A greater index has completed no less, and the percentage tells how much.** -/
theorem completed_mono (s : Sequence) :
    (∀ ⦃a b : Nat⦄, a ≤ b →
      s.lastPassed? a ≤ s.lastPassed? b ∧
      (s.reachedFirst a = true → s.reachedFirst b = true) ∧
      (s.reachedLast a = true → s.reachedLast b = true) ∧
      (s.isReturning a = true → s.isReturning b = true) ∧
      s.exactPercent a ≤ s.exactPercent b) ∧
    ∀ latest : Nat,
      (s.reachedLast latest = true → s.reachedFirst latest = true) ∧
      s.exactPercent latest ∈ Set.Icc 0 100 ∧
      (0 < s.exactPercent latest ↔ s.reachedFirst latest = true) ∧
      (s.exactPercent latest = 100 ↔ s.reachedLast latest = true) := by
  constructor
  · intro a b hab
    refine ⟨before?_mono (s.waypointsUpTo_mono hab), ?_, ?_, ?_, s.exactPercent_mono hab⟩
    · exact Bool.le_iff_imp.mp (monotone_any_le s.firstWaypointIndex? hab)
    · exact Bool.le_iff_imp.mp (monotone_any_le s.lastWaypointIndex? hab)
    · exact Bool.le_iff_imp.mp (s.isReturning_mono hab)
  · intro latest
    exact ⟨reachedFirst_of_reachedLast, ⟨s.exactPercent_nonneg latest, s.exactPercent_le latest⟩,
      exactPercent_pos_iff, exactPercent_eq_hundred_iff⟩

/-- Waypoints behind a return are passed, but they complete nothing. -/
example :
    let s : Sequence := [.waypoint ⟨1, 2⟩ 30 0 0 .relative, .returnToLaunch,
      .waypoint ⟨3, 4⟩ 30 0 0 .relative, .returnToLaunch]
    s.lastPassed? 3 = some 1 ∧ s.passed 3 = (1, 1) ∧ s.isReturning 0 = true := by
  decide

end Sequence

end Sortie
