import Sortie.Proofs.Command.Indices
import Sortie.Proofs.Compile.Flown

/-!
# Commands that are left out

The commands of a mission hold nothing that changes nothing.  `Apt` says what that asks of a command,
given those before it: a speed or a view differs from the one in force, the aircraft stops following
a target only if it follows one, it is not told a tilt while it does, and it turns to another target
only where it has just arrived at a waypoint that follows another one than the waypoint before.
`Sequence.Each` says so of every command of a sequence, with what comes before it.

For speeds and tilts the generator looks before it sets them.  A view is set without a look when a
target is given up, and that it differs then is not checked anywhere: it does because the last view
set was one towards a target (`Ready.looks`), and the waypoint that gives it up has no view of that
kind.  `Ready` is kept from one visit to the next (`Ready.visit`), and `generate_sparing` reads the
result off.
-/

namespace Sortie

namespace Command

/-- The aircraft is told what to look at. -/
def aims : Command → Bool
  | .lookAt .. | .lookFree => true
  | _ => false

/-- A command that sets nothing that stays in force. -/
def isPlain : Command → Bool
  | .speed _ | .view _ | .lookAt .. | .lookFree | .tilt _ => false
  | _ => true

end Command

namespace InForce

variable (p : InForce)

theorem obey_of_isPlain {c : Command} (h : c.isPlain = true) : p.obey c = p := by
  cases c <;> first | rfl | cases h

theorem speed_after {s : Sequence} (h : ∀ value, .speed value ∉ s) :
    (p.after s).speed = p.speed := by
  induction s generalizing p with
  | nil => rfl
  | cons c s ih =>
    have hrest := ih (p.obey c) fun value hm => h value (List.mem_cons_of_mem c hm)
    rw [after_cons, hrest]
    cases c with
    | speed value => exact absurd List.mem_cons_self (h value)
    | _ => rfl

theorem view_after {s : Sequence} (h : ∀ mode, .view mode ∉ s) : (p.after s).view = p.view := by
  induction s generalizing p with
  | nil => rfl
  | cons c s ih =>
    have hrest := ih (p.obey c) fun mode hm => h mode (List.mem_cons_of_mem c hm)
    rw [after_cons, hrest]
    cases c with
    | view mode => exact absurd List.mem_cons_self (h mode)
    | _ => rfl

end InForce

namespace Sequence

/-- Every command stands in a relation to what comes before it. -/
def Each (R : Sequence → Command → Prop) (before : Sequence) : Sequence → Prop
  | [] => True
  | c :: s => R before c ∧ Each R (before ++ [c]) s

variable {R : Sequence → Command → Prop} {before s t : Sequence} {c : Command}

theorem each_append : Each R before (s ++ t) ↔ Each R before s ∧ Each R (before ++ s) t := by
  induction s generalizing before with
  | nil => simp [Each]
  | cons c s ih => simp [Each, ih, and_assoc]

theorem Each.apply (h : Each R before (s ++ c :: t)) : R (before ++ s) c :=
  (each_append.mp h).2.1

theorem each_of_forall (h : ∀ c ∈ s, ∀ before, R before c) : Each R before s := by
  induction s generalizing before with
  | nil => trivial
  | cons c s ih =>
    exact ⟨h c List.mem_cons_self before, ih fun d hd => h d (List.mem_cons_of_mem c hd)⟩

end Sequence

open Sequence (Each each_append each_of_forall)

namespace Generate

/-- The aircraft has just arrived at a waypoint that follows another target than the one before. -/
def TurnsAt (m : Mission) (before : Sequence) : Prop :=
  ∃ k w way, m.waypoints[k]? = some w ∧ before = way ++ [fly m k w] ∧ way.waypointCount = k ∧
    targetIndex? m w ≠ (m.previous? k).bind (targetIndex? m)

/-- A command that has its place behind the commands `before`. -/
structure Apt (m : Mission) (before : Sequence) (c : Command) : Prop where
  speed : ∀ value, c = .speed value → ∀ held, (InForce.after {} before).speed = some held →
    (held == value) = false
  view : ∀ mode, c = .view mode → (InForce.after {} before).view ≠ some mode
  aims : c.aims = true → TurnsAt m before
  free : c = .lookFree → (InForce.after {} before).target ≠ none
  tilt : ∀ angle, c = .tilt angle → (InForce.after {} before).target = none

variable {m : Mission} {h : Held} {before : Sequence}

theorem apt_of_isPlain {c : Command} (hc : c.isPlain = true) (before : Sequence) :
    Apt m before c := by
  refine ⟨?_, ?_, fun ha => ?_, ?_, ?_⟩
  · rintro value rfl
    cases hc
  · rintro mode rfl
    cases hc
  · cases c <;> first | exact absurd hc Bool.false_ne_true | exact absurd ha Bool.false_ne_true
  · rintro rfl
    cases hc
  · rintro angle rfl
    cases hc

/-- A tilt has its place while nothing is followed. -/
theorem apt_tilt (ht : (InForce.after {} before).target = none) (angle : Float) :
    Apt m before (.tilt angle) := by
  refine ⟨?_, ?_, fun ha => absurd ha Bool.false_ne_true, ?_, fun _ _ => ht⟩
  · intro value h
    cases h
  · intro mode h
    cases h
  · intro h
    cases h

/-! ### Pieces of a visit -/

theorem each_setSpeed (ha : h.Agrees m (InForce.after {} before)) (speed : Float) :
    Each (Apt m) before (setSpeed speed h).1 ∧
      (setSpeed speed h).2.Agrees m (InForce.after {} (before ++ (setSpeed speed h).1)) := by
  unfold setSpeed
  split
  · exact ⟨trivial, by rwa [List.append_nil]⟩
  · next hne =>
    refine ⟨⟨⟨?_, nofun, nofun, nofun, nofun⟩, trivial⟩, ?_⟩
    · rintro value ⟨⟩ held hheld
      rw [ha.speed, hheld] at hne
      exact Bool.eq_false_iff.mpr hne
    · rw [InForce.after_append]
      exact { ha with speed := rfl }

theorem each_setView (ha : h.Agrees m (InForce.after {} before)) (view : ViewMode) :
    Each (Apt m) before (setView view h).1 := by
  unfold setView
  split
  · next hne =>
    refine ⟨⟨nofun, ?_, nofun, nofun, nofun⟩, trivial⟩
    rintro mode ⟨⟩
    rw [← ha.view]
    exact hne.2
  · trivial

/-- A waypoint that follows nothing has no view towards a target. -/
theorem viewMode_of_not_target {index : Nat} {w : Waypoint} (hw : m.waypoints[index]? = some w)
    (ht : targetIndex? m w = none) (poi : Nat) : m.viewMode index ≠ .target poi := by
  unfold Mission.viewMode
  rw [hw]
  cases hp : w.poi with
  | none => cases hy : w.yaw <;> simp [hp, hy]
  | some i =>
    have hi : ¬ i < m.pois.length := by simpa [targetIndex?, hp] using ht
    cases hy : w.yaw <;> simp [hp, hy, hi]

theorem viewMode_of_target {index poi : Nat} {w : Waypoint} (hw : m.waypoints[index]? = some w)
    (ht : targetIndex? m w = some poi) : ∃ poi, m.viewMode index = .target poi := by
  obtain ⟨hp, hi⟩ := Option.filter_eq_some_iff.mp ht
  have hi : poi < m.pois.length := of_decide_eq_true hi
  refine ⟨poi % 4294967296, ?_⟩
  simp [Mission.viewMode, hw, hp, hi]

theorem bind_targetIndex?_eq_none {w : Waypoint}
    (h : (targetIndex? m w).bind (m.pois[·]?) = none) : targetIndex? m w = none := by
  cases ht : targetIndex? m w with
  | none => rfl
  | some poi =>
    have hi : poi < m.pois.length := of_decide_eq_true (Option.filter_eq_some_iff.mp ht).2
    simp [ht, hi] at h

/-- The view that is set when a target is given up differs from the one in force, which is still
towards a target. -/
theorem each_setTarget (ha : h.Agrees m (InForce.after {} before)) {index : Nat} {w : Waypoint}
    (hw : m.waypoints[index]? = some w)
    (hturns : targetIndex? m w ≠ h.target → TurnsAt m before)
    (hlooks : h.target ≠ none → ∃ poi, h.view = some (.target poi)) :
    Each (Apt m) before (setTarget m.pois (Frame.ofAbsolute m.isAbsolute) (m.viewMode index)
      (targetIndex? m w) h).1 := by
  unfold setTarget
  split
  · trivial
  · next hne =>
    have hturns := hturns hne
    split
    · exact ⟨⟨nofun, nofun, fun _ => hturns, nofun, nofun⟩, trivial⟩
    · next hnone =>
      have hfree : targetIndex? m w = none := bind_targetIndex?_eq_none hnone
      have htarget : h.target ≠ none := fun ht => hne (hfree.trans ht.symm)
      obtain ⟨poi, hview⟩ := hlooks htarget
      refine ⟨⟨nofun, nofun, fun _ => hturns, fun _ hn => ?_, nofun⟩,
        ⟨nofun, ?_, nofun, nofun, nofun⟩, trivial⟩
      · exact htarget (ha.target_eq_none_iff.mp hn)
      · rintro mode ⟨⟩ hmode
        rw [InForce.after_append] at hmode
        have hmode : (InForce.after {} before).view = some (m.viewMode index) := hmode
        rw [← ha.view, hview] at hmode
        exact viewMode_of_not_target hw hfree poi (Option.some.inj hmode).symm

theorem each_act (ha : h.Agrees m (InForce.after {} before)) (actions : List Action) :
    Each (Apt m) before (act actions h).1 := by
  induction actions generalizing h before with
  | nil => trivial
  | cons a rest ih =>
    have hplain (c : Command) (hc : c.isPlain = true) :
        Each (Apt m) before (c :: (act rest h).1) := by
      refine ⟨apt_of_isPlain hc before, ih ?_⟩
      rw [InForce.after_append, InForce.after_cons, InForce.obey_of_isPlain _ hc]
      exact ha
    cases a with
    | tilt angle =>
      simp only [act]
      split
      · exact ih ha
      · next hn =>
        have htarget : h.target = none := by
          cases ht : h.target with
          | none => rfl
          | some poi => simp [ht] at hn
        refine ⟨apt_tilt (ha.target_eq_none_iff.mpr htarget) angle, ih ?_⟩
        rw [InForce.after_append]
        exact { ha with tilt := fun angle ht => ht }
    | _ => exact hplain _ rfl

theorem isPlain_startCapture (m : Mission) (index : Nat) :
    ∀ c ∈ startCapture m index, c.isPlain = true := by
  unfold startCapture
  split
  · cases m.capture.mode <;> simp [Capture.start, Command.isPlain]
  · simp

/-! ### Visits -/

/-- The generator is about to lay out a waypoint behind the commands `before`. -/
structure Ready (m : Mission) (before : Sequence) (index : Nat) (h : Held) : Prop where
  agrees : h.Agrees m (InForce.after {} before)
  count : before.waypointCount = index
  target : h.target = (m.previous? index).bind (targetIndex? m)
  /-- While a target is followed, the last view set is one towards a target. -/
  looks : h.target ≠ none → ∃ poi, h.view = some (.target poi)

theorem view_act (actions : List Action) (h : Held) : (act actions h).2.view = h.view := by
  induction actions generalizing h with
  | nil => rfl
  | cons a rest ih =>
    cases a with
    | tilt angle =>
      simp only [act]
      split
      · exact ih h
      · exact ih _
    | _ => exact ih h

theorem target_setSpeed (speed : Float) (h : Held) :
    (setSpeed speed h).2.target = h.target ∧ (setSpeed speed h).2.view = h.view := by
  unfold setSpeed
  split <;> exact ⟨rfl, rfl⟩

theorem view_setView (view : ViewMode) (h : Held) :
    (setView view h).2.target = h.target ∧
      (h.target = none → (setView view h).2.view = some view) ∧
      (h.target ≠ none → (setView view h).2.view = h.view) := by
  unfold setView
  split
  · next hne => exact ⟨rfl, fun _ => rfl, fun hn => absurd (Option.isNone_iff_eq_none.mp hne.1) hn⟩
  · next hn =>
    refine ⟨rfl, fun ht => ?_, fun _ => rfl⟩
    by_contra hne
    exact hn ⟨by rw [ht]; rfl, hne⟩

theorem view_setTarget {pois : List PointOfInterest} {frame : Frame} {view : ViewMode}
    {target : Option Nat} {h : Held} (ht : target.bind (pois[·]?) = none → target = none)
    (hn : target ≠ none) : (setTarget pois frame view target h).2.view = h.view := by
  unfold setTarget
  split
  · rfl
  · split
    · rfl
    · next hnone => exact absurd (ht hnone) hn

/-- On the way to a waypoint its speed and view are set. -/
theorem Ready.approach {index : Nat} {w : Waypoint} (hr : Ready m before index h) :
    let speed := setSpeed w.speed h
    let look := setView (m.viewMode index) speed.2
    Each (Apt m) before (speed.1 ++ look.1) ∧ Ready m (before ++ (speed.1 ++ look.1)) index look.2 ∧
      (look.2.target = none → look.2.view = some (m.viewMode index)) := by
  intro speed look
  obtain ⟨hspeed, hagrees⟩ := each_setSpeed hr.agrees w.speed
  have hlook : Each (Apt m) (before ++ speed.1) look.1 := each_setView hagrees _
  obtain ⟨htarget₁, hview₁⟩ := target_setSpeed w.speed h
  obtain ⟨htarget₂, hfree, hheld⟩ := view_setView (m.viewMode index) speed.2
  have htarget : look.2.target = h.target := htarget₂.trans htarget₁
  refine ⟨each_append.mpr ⟨hspeed, hlook⟩, ⟨?_, ?_, htarget.trans hr.target, fun hn => ?_⟩, ?_⟩
  · rw [← List.append_assoc, InForce.after_append]
    exact (hagrees.setView (m.viewMode index)).1
  · have hnone : (speed.1 ++ look.1).waypointCount = 0 := Sequence.waypointCount_eq_zero
      (List.forall_mem_append.mpr ⟨isWaypoint_setSpeed _ _, isWaypoint_setView _ _⟩)
    rw [Sequence.waypointCount_append, hnone, hr.count, Nat.add_zero]
  · have hn : h.target ≠ none := fun ht => hn (htarget.trans ht)
    obtain ⟨poi, hpoi⟩ := hr.looks hn
    exact ⟨poi, ((hheld fun ht => hn (htarget₁.symm.trans ht)).trans hview₁).trans hpoi⟩
  · exact fun ht => hfree (htarget₂.symm.trans ht)

/-- **Each command of a visit has its place**, and the next waypoint can be laid out. -/
theorem Ready.visit {index : Nat} {w : Waypoint} (hr : Ready m before index h)
    (hw : m.waypoints[index]? = some w) :
    Each (Apt m) before (visit m (Frame.ofAbsolute m.isAbsolute) index w h).1 ∧
      Ready m (before ++ (visit m (Frame.ofAbsolute m.isAbsolute) index w h).1) (index + 1)
        (visit m (Frame.ofAbsolute m.isAbsolute) index w h).2 := by
  rw [visit_eq]
  obtain ⟨happroach, hready, hview⟩ := hr.approach (w := w)
  generalize setSpeed w.speed h = speed at *
  generalize setView (m.viewMode index) speed.2 = look at *
  -- The aircraft arrives, and turns to what the waypoint follows.
  have hfly : Apt m (before ++ (speed.1 ++ look.1)) (fly m index w) := apt_of_isPlain rfl _
  have harrived : look.2.Agrees m
      (InForce.after {} (before ++ (speed.1 ++ look.1) ++ [fly m index w])) := by
    rw [InForce.after_append]
    exact hready.agrees
  have htrack := each_setTarget harrived hw
    (fun hne => ⟨index, w, _, hw, rfl, hready.count, hready.target ▸ hne⟩) hready.looks
  obtain ⟨hagrees, htarget⟩ := harrived.setTarget (m.viewMode index) w
  have hwaypoint := isWaypoint_setTarget m.pois (Frame.ofAbsolute m.isAbsolute) (m.viewMode index)
    (targetIndex? m w) look.2
  have hlooks : targetIndex? m w ≠ none →
      ∃ poi, (setTarget m.pois (Frame.ofAbsolute m.isAbsolute) (m.viewMode index)
        (targetIndex? m w) look.2).2.view = some (.target poi) := by
    intro hn
    rw [view_setTarget bind_targetIndex?_eq_none hn]
    by_cases ht : look.2.target = none
    · obtain ⟨poi, hpoi⟩ := Option.ne_none_iff_exists'.mp hn
      rw [hview ht]
      obtain ⟨poi, hpoi⟩ := viewMode_of_target hw hpoi
      exact ⟨poi, congrArg some hpoi⟩
    · exact hready.looks ht
  generalize setTarget m.pois (Frame.ofAbsolute m.isAbsolute) (m.viewMode index)
    (targetIndex? m w) look.2 = track at *
  rw [← InForce.after_append] at hagrees
  -- It acts there, and the capture starts if this is the first of several waypoints.
  have hact := each_act hagrees w.actions
  obtain ⟨hagrees', htarget'⟩ := hagrees.act w.actions
  have hstart : ∀ before, Each (Apt m) before (startCapture m index) := fun before =>
    each_of_forall fun c hc => apt_of_isPlain (isPlain_startCapture m index c hc)
  refine ⟨each_append.mpr ⟨happroach, hfly, each_append.mpr ⟨each_append.mpr ⟨htrack, hact⟩,
    hstart _⟩⟩, ?_, ?_, ?_, fun hn => ?_⟩
  · simp only [InForce.after_append, InForce.after_cons, after_startCapture] at hagrees' ⊢
    exact hagrees'
  · have hcount : (before ++ (speed.1 ++ look.1)).waypointCount = index := hready.count
    have hnone : (track.1 ++ (act w.actions track.2).1 ++ startCapture m index).waypointCount = 0 :=
      Sequence.waypointCount_eq_zero (List.forall_mem_append.mpr ⟨List.forall_mem_append.mpr
        ⟨hwaypoint, isWaypoint_act _ _⟩, isWaypoint_startCapture m index⟩)
    rw [← List.append_assoc, Sequence.waypointCount_append, hcount, ← List.singleton_append,
      Sequence.waypointCount_append, hnone]
    rfl
  · rw [htarget', htarget, Mission.previous?, hw]
    rfl
  · rw [view_act]
    exact hlooks fun ht => hn (htarget'.trans (htarget.trans ht))

theorem each_visitAll (ws : List Waypoint) :
    ∀ {before : Sequence} {index : Nat} {h : Held}, Ready m before index h →
      m.waypoints.drop index = ws →
      Each (Apt m) before (visitAll m (Frame.ofAbsolute m.isAbsolute) index ws h) := by
  induction ws with
  | nil =>
    intro before index h _ _
    exact trivial
  | cons w rest ih =>
    intro before index h hr hws
    have hw : m.waypoints[index]? = some w := by
      have := congrArg (·[0]?) hws
      simpa using this
    have hrest : m.waypoints.drop (index + 1) = rest := by
      rw [← List.tail_drop, hws]
      rfl
    obtain ⟨heach, hr'⟩ := hr.visit hw
    exact each_append.mpr ⟨heach, ih hr' hrest⟩

end Generate

namespace Mission

open Generate

/-- Actions before the first waypoint may tilt the camera, as nothing is followed then. -/
theorem each_toCommand {m : Mission} (actions : List Action) {before : Sequence}
    (ht : (InForce.after {} before).target = none) :
    Each (Apt m) before (actions.map Action.toCommand) := by
  induction actions generalizing before with
  | nil => trivial
  | cons a rest ih =>
    refine ⟨?_, ih ?_⟩
    · cases a with
      | tilt angle => exact apt_tilt ht angle
      | _ => exact apt_of_isPlain rfl _
    · rw [InForce.after_append]
      cases a <;> exact ht

/-- Nothing is followed before the first waypoint. -/
theorem ready_overture (m : Mission) :
    Each (Apt m) [] m.overture ∧ Ready m m.overture 0 (firstSpeed m).2 := by
  obtain ⟨hagrees, -⟩ := m.agrees_overture
  have hheld : (firstSpeed m).2.target = none := by
    unfold firstSpeed
    split <;> rfl
  refine ⟨each_append.mpr ⟨?_, ?_⟩, hagrees, ?_, hheld, fun hn => absurd hheld hn⟩
  · unfold firstSpeed
    split
    · trivial
    · exact ⟨⟨nofun, nofun, nofun, nofun, nofun⟩, trivial⟩
  · refine each_toCommand _ ?_
    unfold firstSpeed
    split <;> rfl
  · exact Sequence.waypointCount_eq_zero m.isWaypoint_overture

/-- **Every generated command has its place.** -/
theorem each_generate (m : Mission) (s : CompileSettings) : Each (Apt m) [] (m.generate s) := by
  obtain ⟨hoverture, hready⟩ := m.ready_overture
  have hvisits := each_visitAll m.waypoints hready List.drop_zero
  have hfinale : ∀ before, Each (Apt m) before (m.finale s) := by
    intro before
    refine each_of_forall fun c hc => apt_of_isPlain ?_
    revert c
    refine List.forall_mem_cons.mpr ⟨?_, ?_⟩
    · cases m.capture.mode <;> rfl
    · unfold homeward
      split <;> simp [Command.isPlain]
  rw [generate_eq, visits, flatten_visits]
  exact each_append.mpr ⟨each_append.mpr ⟨hoverture, hvisits⟩, hfinale _⟩

/-- **Nothing is commanded that changes nothing.**  Of two speeds or views with none between them
the second differs from the first, though the view is set without a look when a target is given up.
The aircraft is told what to look at only directly behind the way to a waypoint that follows
something else than the waypoint before, to look ahead again only while it follows a target, and
never a tilt while it does. -/
theorem generate_sparing (m : Mission) (s : CompileSettings) :
    (∀ (before between rest : Sequence) (a b : Float),
      m.generate s = before ++ .speed a :: (between ++ .speed b :: rest) →
      (∀ value, .speed value ∉ between) → (a == b) = false) ∧
    (∀ (before between rest : Sequence) (a b : ViewMode),
      m.generate s = before ++ .view a :: (between ++ .view b :: rest) →
      (∀ mode, .view mode ∉ between) → a ≠ b) ∧
    ∀ (before rest : Sequence) (c : Command), m.generate s = before ++ c :: rest →
      (c.aims = true → TurnsAt m before) ∧
      (c = .lookFree → (InForce.after {} before).target ≠ none) ∧
      (∀ angle, c = .tilt angle → (InForce.after {} before).target = none) := by
  have heach := m.each_generate s
  refine ⟨?_, ?_, ?_⟩
  · intro before between rest a b heq hbetween
    rw [heq, ← List.cons_append, ← List.append_assoc] at heach
    refine heach.apply.speed b rfl a ?_
    rw [List.nil_append, InForce.after_append, InForce.after_cons, InForce.speed_after _ hbetween]
    rfl
  · intro before between rest a b heq hbetween hab
    rw [heq, ← List.cons_append, ← List.append_assoc] at heach
    refine heach.apply.view b rfl ?_
    rw [List.nil_append, InForce.after_append, InForce.after_cons, InForce.view_after _ hbetween,
      ← hab]
    rfl
  · intro before rest c heq
    rw [heq] at heach
    have hapt : Apt m before c := heach.apply
    exact ⟨hapt.aims, hapt.free, hapt.tilt⟩

/-- The target of the second waypoint is taken up there and given up at the third. -/
example : ((circuit.generate {}).filter Command.aims)
    = [.lookAt ⟨46, 7⟩ 5 .relative, .lookFree] := by decide +kernel

end Mission

end Sortie
