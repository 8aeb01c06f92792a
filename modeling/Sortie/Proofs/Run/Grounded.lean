import Sortie.Proofs.Run.Waiting

/-!
# Runs that are not flown

A run that the aircraft never takes up stays on the ground, and it ends when the pilot stops it.
The aircraft may still send reports meanwhile, of a mission before it for instance.  The items and
the recovery resources that they bring are accepted all the same, and the stop puts them into the
record.  `Kept` says what has become of the record: the last item accepted before the last stop is
marked in it, and the last resource reported before is its recovery.  So the record is as it was
set up exactly if these change nothing (`Engine.ended_grounded`), and they may
(`not_forall_ended_grounded`).
-/

namespace Sortie

/-! ### Marks -/

theorem Cursor.greater_greater (a b : Float) : greater (greater a b) b = greater a b := by
  unfold greater
  by_cases h : a < b ∨ a.isNaN = true
  · rw [if_pos h, ite_self]
  · rw [if_neg h, if_neg h]

/-- An item marked twice is marked once. -/
theorem Cursor.mark_mark (c : Cursor) (s : Sequence) (item : Nat) :
    (c.mark s item).mark s item = c.mark s item := by
  cases h : s.lastPassed? item <;> simp [mark, greater_greater, h]

theorem Execution.mark_mark (x : Execution) (s : Sequence) (item : Nat) :
    (x.mark s item).mark s item = x.mark s item := by
  simp [mark, cursor, Cursor.mark_mark]

theorem Execution.mission_mark {x y : Execution} (s : Sequence) (item : Nat)
    (h : x.mission = y.mission) : (x.mark s item).mission = (y.mark s item).mission := by
  unfold mark cursor
  rw [h]

/-- The record with another state of the mission and another recovery resource. -/
def Execution.revise (x : Execution) (m : Mission) (recovery : Option String) : Execution :=
  { x with mission := m, recovery }

theorem Mission.lastItem_of_same {m n : Mission} (h : Same m n) :
    m.cursor.lastItem = n.cursor.lastItem := by
  rcases h with rfl | h
  · rfl
  · simp only [BEq.beq, instBEqMission.beq, Bool.and_eq_true] at h
    exact (Cursor.eq_of_beq h.2.2.2.2.2.2.2.2.2.2.2.2).1

theorem Execution.same_revise_iff (x : Execution) (m : Mission) (recovery : Option String) :
    Same (x.revise m recovery) x ↔ Same m x.mission ∧ recovery = x.recovery := by
  have hbeq : (x.revise m recovery == x) = true ↔ (m == x.mission) = true ∧ recovery = x.recovery := by
    show (m == x.mission && (x.id == x.id && (x.rank == x.rank && (recovery == x.recovery &&
      x.startedAt == x.startedAt)))) = true ↔ _
    simp
  constructor
  · rintro (h | h)
    · have hm := congrArg Execution.mission h
      have hr := congrArg Execution.recovery h
      exact ⟨.inl hm, hr⟩
    · exact ⟨.inr (hbeq.mp h).1, (hbeq.mp h).2⟩
  · rintro ⟨hm | hm, hr⟩
    · exact .inl (by rw [revise, hm, hr])
    · exact .inr (hbeq.mpr ⟨hm, hr⟩)

namespace Run

/-! ### Runs on the ground -/

/-- The turns up to the last stop, the latest first. -/
def untilStop (ts : List Turn) : List Turn :=
  ts.dropWhile fun t => !t.input.stops

/-- The recovery resource that was last reported. -/
def reportedRecovery (ts : List Turn) : Option String :=
  ts.findSome? fun t => t.input.report?.bind (·.recovery)

/-- The turns `ts` since the setup of `x` and `s` have been put into the record `y`. -/
structure Kept (x : Execution) (s : Sequence) (ts : List Turn) (y : Execution) : Prop where
  revised : y = x.revise y.mission y.recovery
  recovery : y.recovery = (reportedRecovery ts <|> x.recovery)
  unmarked : (reached ts).getLast? = none → y.mission = x.mission
  marked : ∀ item, (reached ts).getLast? = some item → y.cursor.lastItem = item ∧
    (item = x.cursor.lastItem → y.mission = (x.mark s item).mission)

/-- A run that was set up with `x` and `s` has stayed on the ground. -/
structure Grounded (x : Execution) (s : Sequence) (ts : List Turn) (e : Engine) (f : Flight) :
    Prop where
  waits : ¬ e.state.phase.IsRunning
  recovery : f.recovery = (reportedRecovery ts <|> x.recovery)
  floor : x.cursor.lastItem ≤ f.floor
  ahead : ∀ item ∈ reached ts, x.cursor.lastItem ≤ item
  kept : Kept x s (untilStop ts) f.record
  ended : ∀ completed y, e.state = .ended completed y →
    completed = y.cursor.reachedLast ∧ Same y f.record

namespace Flight

variable (f : Flight) {i : Input}

theorem record_bring_ground (hu : i.update? = none) : (f.bring false i).record = f.record := by
  rw [f.record_bring false hu]
  cases f.accepted? i <;> rfl

theorem recovery_bring (playing : Bool) (hu : i.update? = none) :
    (f.bring playing i).recovery = (i.report?.bind (·.recovery) <|> f.recovery) := by
  unfold bring
  rw [hu]
  show (f.receive playing i).recovery = _
  unfold receive
  cases f.accepted? i <;> cases i.report? <;> rfl

end Flight

theorem untilStop_sublist (ts : List Turn) : (untilStop ts).Sublist ts :=
  List.dropWhile_sublist _

theorem untilStop_cons (t : Turn) (ts : List Turn) :
    untilStop (t :: ts) = if t.input.stops then t :: ts else untilStop ts := by
  unfold untilStop
  rw [List.dropWhile_cons]
  cases t.input.stops <;> rfl

theorem reportedRecovery_cons (t : Turn) (ts : List Turn) :
    reportedRecovery (t :: ts) = (t.input.report?.bind (·.recovery) <|> reportedRecovery ts) := by
  unfold reportedRecovery
  rw [List.findSome?_cons]
  cases t.input.report?.bind (·.recovery) <;> rfl

theorem reportedRecovery_untilStop {ts : List Turn} (h : reportedRecovery ts = none) :
    reportedRecovery (untilStop ts) = none := by
  unfold reportedRecovery at h ⊢
  rw [List.findSome?_eq_none_iff] at h ⊢
  exact fun t ht => h t ((untilStop_sublist ts).subset ht)

theorem mem_reached_of_sublist {us ts : List Turn} (h : us.Sublist ts) {item : Nat}
    (hitem : item ∈ reached us) : item ∈ reached ts := by
  simp only [reached, List.mem_flatMap, List.mem_reverse] at hitem ⊢
  obtain ⟨t, ht, hitem⟩ := hitem
  exact ⟨t, h.subset ht, hitem⟩

theorem Counted.le_of_mem {x : Execution} {s : Sequence} {ts : List Turn} {f : Flight}
    (h : Counted x s ts f) {item last : Nat} (hlast : (reached ts).getLast? = some last)
    (hitem : item ∈ reached ts) : item ≤ last := by
  obtain ⟨items, hreached⟩ := List.getLast?_eq_some_iff.mp hlast
  have hincreasing := h.increasing
  rw [hreached] at hincreasing hitem
  rcases List.mem_append.mp hitem with hitem | hitem
  · exact le_of_lt ((List.pairwise_append.mp hincreasing).2.2 item hitem last List.mem_cons_self)
  · exact le_of_eq (List.mem_singleton.mp hitem)

/-- A stop puts everything into the record that the turns have brought. -/
theorem Kept.commit {x : Execution} {s : Sequence} {ts : List Turn} {f : Flight}
    (h : Kept x s (untilStop ts) f.record) (hc : Counted x s ts f)
    (hr : f.recovery = (reportedRecovery ts <|> x.recovery))
    (hahead : ∀ item ∈ reached ts, x.cursor.lastItem ≤ item) : Kept x s ts f.committed := by
  constructor
  · show f.committed = x.revise f.committed.mission f.committed.recovery
    unfold Flight.committed
    rw [h.revised]
    cases f.latest <;> rfl
  · have hrecovery : f.committed.recovery = (f.recovery <|> f.record.recovery) := by
      unfold Flight.committed
      cases f.latest <;> rfl
    rw [hrecovery, hr, h.recovery]
    cases hts : reportedRecovery ts with
    | some resource => rfl
    | none =>
      rw [reportedRecovery_untilStop hts]
      cases x.recovery <;> rfl
  · intro hnone
    have hlatest : f.latest = none := hc.latest.trans hnone
    have hmission : f.committed.mission = f.record.mission := by
      unfold Flight.committed
      rw [hlatest]
    have hempty : (reached (untilStop ts)).getLast? = none := by
      rw [List.getLast?_eq_none_iff, List.eq_nil_iff_forall_not_mem] at hnone ⊢
      exact fun item hitem => hnone item (mem_reached_of_sublist (untilStop_sublist ts) hitem)
    rw [hmission, h.unmarked hempty]
  · intro item hlast
    have hlatest : f.latest = some item := hc.latest.trans hlast
    have hmission : f.committed.mission = (f.record.mark s item).mission := by
      unfold Flight.committed
      rw [hlatest, hc.commands]
    refine ⟨congrArg (·.cursor.lastItem) hmission, fun hitem => ?_⟩
    rw [hmission]
    cases hbefore : (reached (untilStop ts)).getLast? with
    | none => exact Execution.mission_mark s item (h.unmarked hbefore)
    | some before =>
      -- It is the only item that has been reached, so it has been marked before.
      have hmem : before ∈ reached ts :=
        mem_reached_of_sublist (untilStop_sublist ts) (List.mem_of_getLast? hbefore)
      have hle : before ≤ item := hc.le_of_mem hlast hmem
      obtain rfl : before = item := le_antisymm hle (hitem ▸ hahead before hmem)
      have hmarked := (h.marked before hbefore).2 hitem
      rw [Execution.mission_mark s before hmarked, Execution.mark_mark]

namespace Grounded

variable {x : Execution} {s : Sequence} {ts : List Turn} {t : Turn} {e e' : Engine} {f g : Flight}

/-- The run goes on waiting. -/
theorem wait (h : Grounded x s ts e f) (hi : t.input.grounds = true) (hs : t.input.stops = false)
    (ht : t.items = (f.accepted? t.input).toList) (hg : g.core = f.core.bring false t.input)
    (hw : e.state.Waits e'.state) : Grounded x s (t :: ts) e' g := by
  have hu : t.input.update? = none := Input.update?_of_grounds hi
  have hrecord : g.record = f.record :=
    (congrArg Flight.record hg).trans (f.core.record_bring_ground hu)
  constructor
  case waits =>
    rcases hw with hw | ⟨failure, hw⟩ | ⟨y, a, hw⟩
    · exact hw ▸ h.waits
    all_goals
      rw [hw]
      simp [State.phase, Phase.IsRunning, Phase.IsFlying]
  case recovery =>
    have hrecovery := (congrArg Flight.recovery hg).trans (f.core.recovery_bring false hu)
    refine hrecovery.trans ?_
    show (_ <|> f.recovery) = _
    rw [h.recovery, reportedRecovery_cons]
    cases t.input.report?.bind (·.recovery) <;> rfl
  case floor =>
    have hfloor := (congrArg Flight.floor hg).trans (f.core.floor_bring false t.input)
    rw [hu] at hfloor
    exact hfloor ▸ h.floor
  case ahead =>
    intro item hitem
    rw [reached_cons, List.mem_append] at hitem
    rcases hitem with hitem | hitem
    · exact h.ahead item hitem
    · rw [ht, Option.mem_toList] at hitem
      have haccepts := (Option.filter_eq_some_iff.mp hitem).2
      simp only [Flight.accepts, Bool.and_eq_true, decide_eq_true_eq] at haccepts
      exact h.floor.trans haccepts.2
  case kept =>
    rw [untilStop_cons, hs, hrecord]
    exact h.kept
  case ended =>
    intro completed y hy
    rw [hrecord]
    rcases hw with hw | ⟨failure, hw⟩ | ⟨z, a, hw⟩
    · exact h.ended completed y (hw.symm.trans hy)
    all_goals cases hw.symm.trans hy

/-- The run is stopped, and its record is brought up to date. -/
theorem stop (h : Grounded x s ts e f) (hc : Counted x s ts f) (hs : t.input.stops = true)
    (ht : t.items = (f.accepted? t.input).toList) (hg : g.core = f.core.commit)
    {y : Execution} (hy : Same y f.committed) (he : e'.state = .ended y.cursor.reachedLast y) :
    Grounded x s (t :: ts) e' g := by
  obtain ⟨forced, hstop⟩ := Input.eq_of_stops hs
  have hreached : reached (t :: ts) = reached ts := by
    rw [reached_cons, ht, hstop]
    exact List.append_nil _
  have hrecovery : reportedRecovery (t :: ts) = reportedRecovery ts := by
    rw [reportedRecovery_cons, hstop]
    rfl
  have hrecord : g.record = f.committed := congrArg Flight.record hg
  constructor
  case waits =>
    rw [he]
    simp [State.phase, Phase.IsRunning, Phase.IsFlying]
  case recovery =>
    exact (congrArg Flight.recovery hg).trans (hrecovery ▸ h.recovery)
  case floor =>
    have hfloor : g.floor = f.latest.getD f.floor := congrArg Flight.floor hg
    rw [hfloor]
    cases hl : f.latest with
    | none => exact h.floor
    | some item => exact h.ahead item (List.mem_of_getLast? (hc.latest.symm.trans hl))
  case ahead =>
    rw [hreached]
    exact h.ahead
  case kept =>
    have hkept := h.kept.commit hc h.recovery h.ahead
    rw [untilStop_cons, hs, if_pos rfl, hrecord]
    exact ⟨hkept.revised, hrecovery ▸ hkept.recovery, hreached ▸ hkept.unmarked,
      hreached ▸ hkept.marked⟩
  case ended =>
    intro completed z hz
    cases he.symm.trans hz
    exact ⟨rfl, hrecord ▸ hy⟩

end Grounded

/-- **A run stays on the ground until the aircraft reports that it flies it.** -/
theorem Sequel.grounded {x : Execution} {s : Sequence} {ts : List Turn} {e e' : Engine}
    (h : Sequel e ts e') (he : e.flight = some (.load x s)) (hp : e.state.phase = .idle)
    (hts : ∀ t ∈ ts, t.input.grounds = true) : ∃ f, e'.flight = some f ∧ Grounded x s ts e' f := by
  induction h with
  | here =>
    refine ⟨_, he, ?_⟩
    constructor
    case waits => simp [hp, Phase.IsRunning, Phase.IsFlying]
    case recovery => rfl
    case floor => exact le_rfl
    case ahead => intro item hitem; cases hitem
    case kept => exact ⟨rfl, rfl, fun _ => rfl, fun item hitem => by cases hitem⟩
    case ended => intro completed y hy; rw [hy] at hp; cases hp
  | @turn ts e₁ e₂ t past now ih =>
    have hpast : ∀ u ∈ ts, u.input.grounds = true := fun u hu => hts u (List.mem_cons_of_mem t hu)
    obtain ⟨f, hf, hgrounded⟩ := ih hpast
    have hi : t.input.grounds = true := hts t List.mem_cons_self
    have hcounted : Counted x s ts f :=
      past.counted he (fun u hu => Input.adopts_of_grounds (hpast u hu)) hf
    have ht := (Engine.makes_step hf (Input.adopts_of_grounds hi) now).1
    obtain ⟨g, hg, hwait | hstop⟩ := Engine.grounded_step hf hgrounded.waits hi now
    · obtain ⟨hs, hcore, hw⟩ := hwait
      exact ⟨g, hg, hgrounded.wait hi hs ht hcore hw⟩
    · obtain ⟨hs, hcore, y, hy, hended⟩ := hstop
      exact ⟨g, hg, hgrounded.stop hcounted hs ht hcore hy hended⟩

/-! ### Records that stay as they are -/

/-- What the turns have brought changes nothing of the record: the last item that they have reached
was marked in it, and the last resource that they have reported was its own. -/
def Unchanged (x : Execution) (s : Sequence) (ts : List Turn) : Prop :=
  (∀ item, (reached ts).getLast? = some item → Same (x.mark s item) x) ∧
    ∀ resource, reportedRecovery ts = some resource → x.recovery = some resource

theorem Kept.same_iff {x y : Execution} {s : Sequence} {ts : List Turn} (h : Kept x s ts y) :
    Same y x ↔ Unchanged x s ts := by
  have hrecovery : y.recovery = x.recovery ↔
      ∀ resource, reportedRecovery ts = some resource → x.recovery = some resource := by
    rw [h.recovery]
    cases reportedRecovery ts with
    | none => simp
    | some resource => simp [eq_comm]
  have hmission : Same y.mission x.mission ↔
      ∀ item, (reached ts).getLast? = some item → Same (x.mark s item) x := by
    cases hlast : (reached ts).getLast? with
    | none => simp [h.unmarked hlast, Same.refl]
    | some item =>
      obtain ⟨hitem, hfirst⟩ := h.marked item hlast
      have hmark : Same (x.mark s item) x ↔ Same (x.mark s item).mission x.mission := by
        have hrevise : x.mark s item = x.revise (x.mark s item).mission x.recovery := rfl
        rw [hrevise, Execution.same_revise_iff]
        exact and_iff_left rfl
      simp only [Option.some.injEq, forall_eq', hmark]
      by_cases hold : item = x.cursor.lastItem
      · rw [hfirst hold]
      · -- Neither record has the item of `x`.
        have hne {m : Mission} (hm : m.cursor.lastItem = item) : ¬ Same m x.mission := by
          intro hsame
          exact hold (hm.symm.trans (Mission.lastItem_of_same hsame))
        exact iff_of_false (hne hitem) (hne rfl)
  rw [h.revised, Execution.same_revise_iff, hmission, hrecovery]
  rfl

namespace Engine

variable {x y : Execution} {s : Sequence} {ts : List Turn} {e e₀ e₁ : Engine} {w : Outlook}
  {log : List Effect} {completed : Bool}

/-- **The record that a run ends with that has stayed on the ground.**  The flag says whether the
last waypoint is reached in it, and it is the record that was set up exactly if the items and the
resources that were reported before the last stop change nothing of it. -/
theorem ended_grounded (hset : e.step w (.wish (.setup x s)) = .ok (e₀, log))
    (h : Sequel e₀ ts e₁) (hts : ∀ t ∈ ts, t.input.grounds = true)
    (hended : e₁.state = .ended completed y) :
    completed = y.cursor.reachedLast ∧
      (Same y x ∧ completed = x.cursor.reachedLast ↔ Unchanged x s (untilStop ts)) := by
  have hidle : e₀.state.phase = .idle := by
    obtain ⟨d, hd, rfl, -⟩ := handle_of_step hset
    cases hd
    exact phase_setState _ _
  obtain ⟨f, -, hgrounded⟩ := h.grounded (flight_of_setup hset) hidle hts
  obtain ⟨hcompleted, hy⟩ := hgrounded.ended completed y hended
  refine ⟨hcompleted, ?_⟩
  rw [← hgrounded.kept.same_iff]
  constructor
  · exact fun hsame => hy.symm.trans hsame.1
  · intro hsame
    have hyx : Same y x := hy.trans hsame
    exact ⟨hyx, hcompleted.trans (Execution.cursor_of_same hyx).2.2⟩

end Engine

/-! ### Samples -/

/-- The aircraft does not fly a mission, and says how far it has flown the one before. -/
def reportFlown (item : Nat) (recovery : Option String) : Input :=
  .notice (.interface (some { state := .idle, executed := some item, recovery }))

/-- The tour is stopped before it is played, and then comes a late report of another one. -/
def dropped : List Input :=
  [.wish (.stop true), reportFlown 2 (some "strip")]

theorem ended_dropped :
    ∃ completed y, (afterwards dropped).2.state = .ended completed y ∧ Same y sample ∧
      completed = sample.cursor.reachedLast := by
  have hts : ∀ t ∈ (afterwards dropped).1, t.input.grounds = true := by decide
  have hended : (afterwards dropped).2.state = .ended false sample := rfl
  have h := Engine.ended_grounded (e := {}) (w := {}) (Engine.step_of_handle rfl)
    (sequel_foldl_extend (smoothly dropped) .here) hts hended
  have hunchanged : Unchanged sample tour (untilStop (afterwards dropped).1) := by
    constructor
    · intro item hlast
      cases hlast
    · intro resource hresource
      cases hresource
  exact ⟨false, sample, hended, h.2.mpr hunchanged⟩

/-- A late report of another tour that comes before the stop makes it end as flown. -/
theorem not_forall_ended_grounded :
    ¬ ∀ x y s ts (e e₀ e₁ : Engine) w log completed,
      e.step w (.wish (.setup x s)) = .ok (e₀, log) → Sequel e₀ ts e₁ →
      (∀ t ∈ ts, t.input.grounds = true) → e₁.state = .ended completed y →
      Same y x ∧ completed = x.cursor.reachedLast := by
  intro hall
  have hts : ∀ t ∈ (afterwards dropped.reverse).1, t.input.grounds = true := by decide
  obtain ⟨-, hcompleted⟩ := hall sample _ tour _ {} _ _ {} _ true (Engine.step_of_handle rfl)
    (sequel_foldl_extend (smoothly dropped.reverse) .here) hts rfl
  cases hcompleted

end Run
end Sortie
