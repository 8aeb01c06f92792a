import Sortie.Command.Sequence

/-!
# Waypoints passed

A report of progress is the index of a command.  `Reaches` says which command of a sequence flies to
its waypoint `k`; the waypoints up to an index are more than `k` exactly if that command is among
those up to there (`lt_waypointCount_take_iff`).  What the sequence says of its waypoints follows:
the last one passed (`lastPassed?_eq_some_iff`) and whether that was the last of the body
(`reachedLast_iff`).
-/

namespace Sortie

namespace Sequence

variable {s t : Sequence} {c : Command} {i j k n latest : Nat}

/-! ### Counting waypoints -/

theorem waypointCount_append (s t : Sequence) :
    (s ++ t).waypointCount = s.waypointCount + t.waypointCount :=
  List.countP_append

theorem waypointCount_eq_zero (h : ∀ c ∈ s, c.isWaypoint = false) : s.waypointCount = 0 :=
  List.countP_eq_zero.mpr fun c hc => by simp [h c hc]

theorem waypointCount_take_mono (s : Sequence) (h : i ≤ j) :
    waypointCount (s.take i) ≤ waypointCount (s.take j) :=
  (List.take_sublist_take_left h).countP_le

theorem waypointCount_take_le (s : Sequence) (i : Nat) :
    waypointCount (s.take i) ≤ s.waypointCount :=
  (List.take_sublist i s).countP_le

/-! ### The command of a waypoint -/

/-- The body is what the sequence begins with. -/
theorem waypointCount_take_body (s : Sequence) (n : Nat) :
    waypointCount (s.body.take n) = min (waypointCount (s.take n)) s.body.waypointCount := by
  obtain ⟨t, ht⟩ : ∃ t, s = s.body ++ t := ⟨_, List.takeWhile_append_dropWhile.symm⟩
  have htake : s.take n = s.body.take n ++ t.take (n - s.body.length) := by
    rw [← List.take_append, ← ht]
  rw [htake, waypointCount_append]
  have hle := waypointCount_take_le s.body n
  rcases Nat.le_total n s.body.length with hn | hn
  · rw [Nat.sub_eq_zero_of_le hn, List.take_zero]
    have : waypointCount [] = 0 := rfl
    omega
  · rw [List.take_of_length_le hn] at hle ⊢
    omega

/-- Behind the last waypoint of the body there is none. -/
theorem lastWaypointIndex?_eq_some (h : s.lastWaypointIndex? = some i) :
    ∃ before c after, s.body = before ++ c :: after ∧ before.length = i ∧
      c.isWaypoint = true ∧ ∀ d ∈ after, d.isWaypoint = false := by
  obtain ⟨j, hj, rfl⟩ := Option.map_eq_some_iff.mp h
  obtain ⟨hlt, hw, hnone⟩ := List.findIdx?_eq_some_iff_getElem.mp hj
  have hlength : j < s.body.length := by simpa using hlt
  have hsplit : s.body.reverse
      = s.body.reverse.take j ++ s.body.reverse[j] :: s.body.reverse.drop (j + 1) := by
    rw [← List.drop_eq_getElem_cons hlt, List.take_append_drop]
  refine ⟨(s.body.reverse.drop (j + 1)).reverse, s.body.reverse[j],
    (s.body.reverse.take j).reverse, ?_, ?_, hw, fun d hd => ?_⟩
  · have := congrArg List.reverse hsplit
    rwa [List.reverse_reverse, List.reverse_append, List.reverse_cons, List.append_assoc] at this
  · simp
    omega
  · obtain ⟨n, hn, rfl⟩ := List.mem_take_iff_getElem.mp (List.mem_reverse.mp hd)
    exact Bool.eq_false_iff.mpr (hnone n (by omega))

/-- The last waypoint is reached when all waypoints of the body are passed. -/
theorem reachedLast_iff :
    s.reachedLast latest = true ↔
      0 < s.body.waypointCount ∧ s.body.waypointCount ≤ s.waypointsUpTo latest := by
  have hbody : waypointCount (s.body.take (latest + 1))
      = min (s.waypointsUpTo latest) s.body.waypointCount := waypointCount_take_body s (latest + 1)
  unfold reachedLast
  cases h : s.lastWaypointIndex? with
  | none =>
    have hnone : s.body.waypointCount = 0 := by
      refine waypointCount_eq_zero fun c hc => ?_
      exact List.findIdx?_eq_none_iff.mp (Option.map_eq_none_iff.mp h) c (List.mem_reverse.mpr hc)
    simp [hnone]
  | some i =>
    obtain ⟨before, c, after, hsplit, rfl, hc, hafter⟩ := lastWaypointIndex?_eq_some h
    have hnone {s : Sequence} (hs : ∀ d ∈ s, d.isWaypoint = false) :
        waypointCount (c :: s) = 1 := by
      rw [waypointCount, List.countP_cons_of_pos hc]
      exact congrArg (· + 1) (waypointCount_eq_zero hs)
    have htotal : s.body.waypointCount = waypointCount before + 1 := by
      rw [hsplit, waypointCount_append, hnone hafter]
    rw [Option.any_some, decide_eq_true_iff]
    constructor
    · intro hle
      have htake : s.body.take (latest + 1) = before ++ c :: after.take (latest - before.length) := by
        rw [hsplit, List.take_append, List.take_of_length_le (by omega),
          Nat.succ_sub hle, List.take_succ_cons]
      rw [htake, waypointCount_append,
        hnone fun d hd => hafter d (List.mem_of_mem_take hd)] at hbody
      omega
    · rintro ⟨-, hle⟩
      refine Nat.not_lt.mp fun hlt => ?_
      have htake : s.body.take (latest + 1) = before.take (latest + 1) := by
        rw [hsplit, List.take_append_of_le_length hlt]
      rw [htake] at hbody
      have := waypointCount_take_le before (latest + 1)
      omega

/-! ### The last waypoint and the return -/

theorem length_body_le (h : s.returnIndex? = some n) : s.body.length ≤ n := by
  obtain ⟨hn, hreturn, -⟩ := List.findIdx?_eq_some_iff_getElem.mp h
  refine Nat.not_lt.mp fun hlt => ?_
  have hbody : s.body[n] = s[n] := (List.takeWhile_prefix _).getElem hlt
  have hall := List.all_eq_true.mp List.all_takeWhile _ (List.getElem_mem hlt)
  simp [hbody, hreturn] at hall

/-- The last waypoint of the body is before the return. -/
theorem lastWaypointIndex?_lt (hi : s.lastWaypointIndex? = some i)
    (hn : s.returnIndex? = some n) : i < n := by
  obtain ⟨before, c, after, hsplit, hlength, -⟩ := lastWaypointIndex?_eq_some hi
  have hbody := length_body_le hn
  rw [hsplit, List.length_append, List.length_cons] at hbody
  omega

/-- All waypoints before the return are reached, but there is more to execute before it. -/
def IsLingering (s : Sequence) (latest : Nat) : Prop :=
  ∃ i n, s.lastWaypointIndex? = some i ∧ s.returnIndex? = some n ∧ i ≤ latest ∧ latest + 1 < n

/-- The return has begun, and no waypoint was before it. -/
def IsBareReturn (s : Sequence) (latest : Nat) : Prop :=
  s.lastWaypointIndex? = none ∧ ∃ n, s.returnIndex? = some n ∧ n ≤ latest + 1

/-- The return begins where the last waypoint is reached, but for what is in between, and for a
return that no waypoint is before. -/
theorem isReturning_eq_reachedLast_iff (hreturn : s.hasReturn = true) :
    s.isReturning latest = s.reachedLast latest ↔
      ¬ s.IsLingering latest ∧ ¬ s.IsBareReturn latest := by
  obtain ⟨n, hn⟩ := Option.isSome_iff_exists.mp hreturn
  rw [isReturning, reachedLast, IsLingering, IsBareReturn, hn, Option.any_some]
  cases hi : s.lastWaypointIndex? with
  | none => simp
  | some i =>
    have hlt := lastWaypointIndex?_lt hi hn
    rw [Option.any_some]
    by_cases hbefore : i ≤ latest
    · simp [hbefore]
    · have hnot : ¬ n ≤ latest + 1 := by omega
      simp [hbefore, hnot]

end Sequence

end Sortie
