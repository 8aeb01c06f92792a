import Mathlib
import Sortie.Compile.Generate

/-!
# Flying what was authored

The generated commands leave out what already holds, so a mission is flown as authored only if
what holds is what the generator takes it to be.  `InForce` is the aircraft's side: it remembers
the last speed, view, target and tilt that it was told, and nothing else.  `Held.Agrees` relates
the two, and each piece of a visit keeps it: `Held.Agrees.setSpeed`, `setView`, `setTarget` and
`act`.  The tilt is the delicate one.  The generator forgets it when a target is taken up, so it
never knows a tilt that the aircraft does not have, but not the other way round.

The sequence of a mission is its `overture`, one visit for each waypoint (`visits`), and its
`finale` (`generate_eq`); `flown_as_authored` goes along the visits.
-/

namespace Sortie

/-- What the aircraft looks at. -/
structure Sight where
  place : Geo.Point
  altitude : Float
  frame : Frame
  deriving DecidableEq, Repr

/-- What was set last by the commands executed so far. -/
structure InForce where
  speed : Option Float := none
  view : Option ViewMode := none
  target : Option Sight := none
  tilt : Option Float := none
  deriving DecidableEq, Repr

namespace InForce

def obey (p : InForce) : Command → InForce
  | .speed value => { p with speed := some value }
  | .view mode => { p with view := some mode }
  | .lookAt place altitude frame => { p with target := some ⟨place, altitude, frame⟩ }
  | .lookFree => { p with target := none }
  | .tilt angle => { p with tilt := some angle }
  | _ => p

def after (p : InForce) (s : Sequence) : InForce :=
  s.foldl obey p

variable (p : InForce) (s t : Sequence) (c : Command)

@[simp] theorem after_nil : p.after [] = p := rfl

@[simp] theorem after_cons : p.after (c :: s) = (p.obey c).after s := rfl

theorem after_append : p.after (s ++ t) = (p.after s).after t :=
  List.foldl_append

end InForce

namespace Action

/-- The angle of the last tilt. -/
def lastTilt? (actions : List Action) : Option Float :=
  actions.reverse.findSome? tilt?

theorem lastTilt?_cons (a : Action) (rest : List Action) :
    lastTilt? (a :: rest) = (lastTilt? rest).or a.tilt? := by
  unfold lastTilt?
  rw [List.reverse_cons, List.findSome?_append]
  cases h : a.tilt? <;> simp [h]

end Action

namespace Waypoint

/-- The numbers that a visit compares are numbers. -/
def IsDefined (w : Waypoint) : Prop :=
  w.speed.isNaN = false ∧ ∀ angle, Action.tilt angle ∈ w.actions → angle.isNaN = false

end Waypoint

/-- A number that is not undefined is equal to itself. -/
theorem beq_self_of_not_isNaN {x : Float} (h : x.isNaN = false) : (x == x) = true := by
  rw [Float.isNaN_eq_decide_eq_nan] at h
  exact Float.beq_self_iff.mpr (of_decide_eq_false h)

namespace Generate

/-- What the aircraft looks at while the waypoint is followed. -/
def sight? (m : Mission) (w : Waypoint) : Option Sight :=
  (m.target? w).map fun poi =>
    ⟨poi.place, poi.altitude, if m.isAbsolute then .absolute else .relative⟩

namespace Held

/-- What the generator takes to hold does hold on the aircraft. -/
structure Agrees (m : Mission) (h : Held) (p : InForce) : Prop where
  speed : h.speed = p.speed
  view : h.view = p.view
  target : p.target = (h.target.bind (m.pois[·]?)).map
    fun poi => ⟨poi.place, poi.altitude, Frame.ofAbsolute m.isAbsolute⟩
  exists_poi : ∀ index, h.target = some index → index < m.pois.length
  tilt : ∀ angle, h.tilt = some angle → p.tilt = some angle

variable {m : Mission} {h : Held} {p : InForce}

theorem Agrees.target_eq_none_iff (ha : h.Agrees m p) : p.target = none ↔ h.target = none := by
  rw [ha.target, Option.map_eq_none_iff]
  cases ht : h.target with
  | none => simp
  | some index => simpa using ha.exists_poi index ht

theorem Agrees.setSpeed (ha : h.Agrees m p) {speed : Float} (hs : speed.isNaN = false) :
    (Generate.setSpeed speed h).2.Agrees m (p.after (Generate.setSpeed speed h).1) ∧
      (p.after (Generate.setSpeed speed h).1).target = p.target ∧
      ∃ v, (p.after (Generate.setSpeed speed h).1).speed = some v ∧ (v == speed) = true := by
  unfold Generate.setSpeed
  split
  · next heq =>
    cases hv : h.speed with
    | none => rw [hv] at heq; cases heq
    | some v =>
      rw [hv] at heq
      exact ⟨ha, rfl, v, ha.speed ▸ hv, heq⟩
  · exact ⟨{ ha with speed := rfl }, rfl, speed, rfl, beq_self_of_not_isNaN hs⟩

theorem Agrees.setView (ha : h.Agrees m p) (view : ViewMode) :
    (Generate.setView view h).2.Agrees m (p.after (Generate.setView view h).1) ∧
      (p.after (Generate.setView view h).1).speed = p.speed ∧
      (p.after (Generate.setView view h).1).target = p.target ∧
      (p.target = none → (p.after (Generate.setView view h).1).view = some view) := by
  unfold Generate.setView
  split
  · exact ⟨{ ha with view := rfl }, rfl, rfl, fun _ => rfl⟩
  · next hn =>
    refine ⟨ha, rfl, rfl, fun ht => ?_⟩
    have ht : h.target = none := ha.target_eq_none_iff.mp ht
    rw [ht] at hn
    show p.view = some view
    rw [← ha.view]
    exact Decidable.not_not.mp fun hv => hn ⟨rfl, hv⟩

/-- A target that is taken up makes the tilt unknown, and one that is given up brings the view
back. -/
theorem Agrees.setTarget (ha : h.Agrees m p) (view : ViewMode) (w : Waypoint) :
    (Generate.setTarget m.pois (Frame.ofAbsolute m.isAbsolute) view (targetIndex? m w) h).2.Agrees m
        (p.after (Generate.setTarget m.pois (Frame.ofAbsolute m.isAbsolute) view
          (targetIndex? m w) h).1) ∧
      (Generate.setTarget m.pois (Frame.ofAbsolute m.isAbsolute) view (targetIndex? m w) h).2.target
        = targetIndex? m w := by
  unfold Generate.setTarget
  have hindex (index : Nat) (hi : targetIndex? m w = some index) : index < m.pois.length := by
    simpa using (Option.filter_eq_some_iff.mp hi).2
  split
  · next heq => exact ⟨ha, heq.symm⟩
  · split
    · next poi hpoi =>
      refine ⟨{ ha with target := ?_, exists_poi := hindex, tilt := nofun }, rfl⟩
      simp [InForce.obey, hpoi]
    · next hpoi =>
      refine ⟨{ ha with target := ?_, exists_poi := hindex, view := rfl }, rfl⟩
      simp [InForce.obey, hpoi]

/-- A tilt is left out only if it holds already or cannot be seen. -/
theorem Agrees.act (ha : h.Agrees m p) (actions : List Action) :
    (Generate.act actions h).2.Agrees m (p.after (Generate.act actions h).1) ∧
      (Generate.act actions h).2.target = h.target := by
  induction actions generalizing h p with
  | nil => exact ⟨ha, rfl⟩
  | cons a rest ih =>
    cases a with
    | tilt angle =>
      simp only [Generate.act]
      split
      · exact ih ha
      · exact ih { ha with tilt := fun angle ht => ht }
    | _ => exact ih ha

theorem tilt_act_of_no_tilt (actions : List Action) (h : Held)
    (hn : Action.lastTilt? actions = none) : (Generate.act actions h).2.tilt = h.tilt := by
  induction actions generalizing h with
  | nil => rfl
  | cons a rest ih =>
    rw [Action.lastTilt?_cons, Option.or_eq_none_iff] at hn
    cases a with
    | tilt angle => cases hn.2
    | _ => exact ih h hn.1

/-- Without a target the last tilt is known to hold. -/
theorem tilt_act (actions : List Action) (h : Held) (ht : h.target = none)
    (hnum : ∀ angle, Action.tilt angle ∈ actions → angle.isNaN = false) {angle : Float}
    (hlast : Action.lastTilt? actions = some angle) :
    ∃ b, (Generate.act actions h).2.tilt = some b ∧ (b == angle) = true := by
  induction actions generalizing h with
  | nil => cases hlast
  | cons a rest ih =>
    have hnum' : ∀ angle, Action.tilt angle ∈ rest → angle.isNaN = false :=
      fun angle hm => hnum angle (List.mem_cons_of_mem a hm)
    rw [Action.lastTilt?_cons] at hlast
    cases a with
    | tilt first =>
      cases hrest : Action.lastTilt? rest with
      | some last =>
        rw [hrest] at hlast
        cases hlast
        simp only [Generate.act]
        split
        · exact ih h ht hnum' hrest
        · exact ih { h with tilt := some first } ht hnum' hrest
      | none =>
        rw [hrest] at hlast
        cases hlast
        simp only [Generate.act]
        split
        · next hskip =>
          rw [tilt_act_of_no_tilt rest h hrest]
          simp only [ht, Option.isSome_none, Bool.false_or] at hskip
          cases hb : h.tilt with
          | none => rw [hb] at hskip; cases hskip
          | some b =>
            rw [hb] at hskip
            exact ⟨b, rfl, hskip⟩
        · exact ⟨angle, tilt_act_of_no_tilt rest _ hrest,
            beq_self_of_not_isNaN (hnum angle List.mem_cons_self)⟩
    | _ => exact ih h ht hnum' (by simpa [Action.tilt?] using hlast)

end Held

/-! ### Commands that are no waypoints -/

theorem isWaypoint_toCommand (a : Action) : a.toCommand.isWaypoint = false := by
  cases a <;> rfl

theorem isWaypoint_setSpeed (speed : Float) (h : Held) :
    ∀ c ∈ (setSpeed speed h).1, c.isWaypoint = false := by
  unfold setSpeed
  split <;> simp [Command.isWaypoint]

theorem isWaypoint_setView (view : ViewMode) (h : Held) :
    ∀ c ∈ (setView view h).1, c.isWaypoint = false := by
  unfold setView
  split <;> simp [Command.isWaypoint]

theorem isWaypoint_setTarget (pois : List PointOfInterest) (frame : Frame) (view : ViewMode)
    (target : Option Nat) (h : Held) :
    ∀ c ∈ (setTarget pois frame view target h).1, c.isWaypoint = false := by
  unfold setTarget
  split
  · simp
  · split <;> simp [Command.isWaypoint]

theorem isWaypoint_act (actions : List Action) (h : Held) :
    ∀ c ∈ (act actions h).1, c.isWaypoint = false := by
  induction actions generalizing h with
  | nil => simp [act]
  | cons a rest ih =>
    cases a with
    | tilt angle =>
      simp only [act]
      split
      · exact ih h
      · exact List.forall_mem_cons.mpr ⟨rfl, ih _⟩
    | _ => exact List.forall_mem_cons.mpr ⟨rfl, ih h⟩

theorem isWaypoint_startCapture (m : Mission) (index : Nat) :
    ∀ c ∈ startCapture m index, c.isWaypoint = false := by
  unfold startCapture
  split
  · cases m.capture.mode <;> simp [Capture.start, Command.isWaypoint]
  · simp

/-! ### One visit -/

theorem after_startCapture (m : Mission) (index : Nat) (p : InForce) :
    p.after (startCapture m index) = p := by
  unfold startCapture
  split
  · cases m.capture.mode <;> rfl
  · rfl

theorem bind_targetIndex? (m : Mission) (w : Waypoint) :
    (targetIndex? m w).bind (m.pois[·]?) = m.target? w := by
  unfold targetIndex? Mission.target?
  cases w.poi with
  | none => rfl
  | some index =>
    by_cases hi : index < m.pois.length
    · simp [Option.filter, hi]
    · simp [Option.filter, hi]

/-- The aircraft flies to a waypoint as authored: at its speed, still looking at what the waypoint
before followed, and if that is nothing, in the view for this one. -/
structure Approached (m : Mission) (index : Nat) (w : Waypoint) (p : InForce) : Prop where
  speed : ∃ v, p.speed = some v ∧ (v == w.speed) = true
  target : p.target = (m.previous? index).bind (sight? m)
  view : p.target = none → p.view = some (m.viewMode index)

/-- What a waypoint asks for holds: the aircraft looks at what it follows, and if that is nothing,
with its last tilt. -/
structure Served (m : Mission) (w : Waypoint) (p : InForce) : Prop where
  target : p.target = sight? m w
  tilt : p.target = none → ∀ angle, Action.lastTilt? w.actions = some angle →
    ∃ b, p.tilt = some b ∧ (b == angle) = true

/-- The commands of a visit lead to its waypoint and serve it. -/
structure Visited (m : Mission) (index : Nat) (w : Waypoint) (p : InForce)
    (approach stay : Sequence) : Prop where
  approach_isWaypoint : ∀ c ∈ approach, c.isWaypoint = false
  stay_isWaypoint : ∀ c ∈ stay, c.isWaypoint = false
  approached : Approached m index w (p.after approach)
  served : Served m w (p.after (approach ++ stay))

/-- The command that flies to a waypoint. -/
def fly (m : Mission) (index : Nat) (w : Waypoint) : Command :=
  .waypoint w.place w.altitude (m.yaw index) 0 (if m.isAbsolute then .absolute else .relative)

theorem after_fly (m : Mission) (index : Nat) (w : Waypoint) (p : InForce)
    (approach stay : Sequence) :
    p.after (approach ++ fly m index w :: stay) = p.after (approach ++ stay) := by
  rw [InForce.after_append, InForce.after_append]
  rfl

theorem visit_eq (m : Mission) (index : Nat) (w : Waypoint) (h : Held) :
    let speed := setSpeed w.speed h
    let look := setView (m.viewMode index) speed.2
    let track := setTarget m.pois (Frame.ofAbsolute m.isAbsolute) (m.viewMode index)
      (targetIndex? m w) look.2
    let actions := act w.actions track.2
    visit m (Frame.ofAbsolute m.isAbsolute) index w h =
      ((speed.1 ++ look.1) ++ fly m index w :: (track.1 ++ actions.1 ++ startCapture m index),
        actions.2) := rfl

theorem Held.Agrees.visit {m : Mission} {h : Held} {p : InForce} (ha : h.Agrees m p) {index : Nat}
    {w : Waypoint} (hw : w.IsDefined) (hp : p.target = (m.previous? index).bind (sight? m)) :
    ∃ approach stay,
      (Generate.visit m (Frame.ofAbsolute m.isAbsolute) index w h).1
        = approach ++ fly m index w :: stay ∧
      Visited m index w p approach stay ∧
      (Generate.visit m (Frame.ofAbsolute m.isAbsolute) index w h).2.Agrees m
        (p.after (approach ++ stay)) := by
  rw [visit_eq]
  obtain ⟨hspeed, hspeedTarget, hv⟩ := ha.setSpeed hw.1
  obtain ⟨hlook, hlookSpeed, hlookTarget, hlookView⟩ := hspeed.setView (m.viewMode index)
  obtain ⟨htrack, htarget⟩ := hlook.setTarget (m.viewMode index) w
  obtain ⟨hact, hactTarget⟩ := htrack.act w.actions
  refine ⟨_, _, rfl, ⟨?_, ?_, ⟨?_, ?_, ?_⟩, ⟨?_, ?_⟩⟩, ?_⟩
  · exact List.forall_mem_append.mpr ⟨isWaypoint_setSpeed _ _, isWaypoint_setView _ _⟩
  · exact List.forall_mem_append.mpr ⟨List.forall_mem_append.mpr
      ⟨isWaypoint_setTarget _ _ _ _ _, isWaypoint_act _ _⟩, isWaypoint_startCapture m index⟩
  all_goals simp only [InForce.after_append, after_startCapture]
  · exact hlookSpeed ▸ hv
  · exact hlookTarget.trans (hspeedTarget.trans hp)
  · exact fun ht => hlookView (hlookTarget.symm.trans ht)
  · rw [hact.target, hactTarget, htarget, bind_targetIndex?]
    rfl
  · intro hnone angle hlast
    obtain ⟨b, hb, heq⟩ := Held.tilt_act w.actions _
      (hactTarget.symm.trans (hact.target_eq_none_iff.mp hnone)) hw.2 hlast
    exact ⟨b, hact.tilt b hb, heq⟩
  · exact hact

/-! ### Visits -/

/-- What is known after a visit. -/
def departure (m : Mission) (index : Nat) (w : Waypoint) (h : Held) : Held :=
  (visit m (Frame.ofAbsolute m.isAbsolute) index w h).2

/-- The commands of the waypoints from an index on, those of each one by themselves. -/
def visits (m : Mission) : Nat → List Waypoint → Held → List Sequence
  | _, [], _ => []
  | index, w :: rest, h =>
    (visit m (Frame.ofAbsolute m.isAbsolute) index w h).1
      :: visits m (index + 1) rest (departure m index w h)

theorem flatten_visits (m : Mission) (index : Nat) (ws : List Waypoint) (h : Held) :
    (visits m index ws h).flatten = visitAll m (Frame.ofAbsolute m.isAbsolute) index ws h := by
  induction ws generalizing index h with
  | nil => rfl
  | cons w rest ih =>
    rw [visits, List.flatten_cons, ih]
    rfl

theorem length_visits (m : Mission) (index : Nat) (ws : List Waypoint) (h : Held) :
    (visits m index ws h).length = ws.length := by
  induction ws generalizing index h with
  | nil => rfl
  | cons w rest ih => exact congrArg (· + 1) (ih (index + 1) _)

theorem visits_visited {m : Mission} (ws : List Waypoint) :
    ∀ {index : Nat} {h : Held} {p : InForce}, h.Agrees m p → (∀ w ∈ ws, w.IsDefined) →
      m.waypoints.drop index = ws → p.target = (m.previous? index).bind (sight? m) →
      ∀ k w, ws[k]? = some w → ∃ approach stay,
        (visits m index ws h)[k]? = some (approach ++ fly m (index + k) w :: stay) ∧
        Visited m (index + k) w (p.after ((visits m index ws h).take k).flatten) approach stay := by
  induction ws with
  | nil => intro index h p _ _ _ _ k w hw; cases hw
  | cons first rest ih =>
    intro index h p ha hdef hws hp k w hw
    obtain ⟨approach, stay, hvisit, hvisited, ha'⟩ :=
      ha.visit (hdef first List.mem_cons_self) hp
    cases k with
    | zero =>
      obtain rfl := Option.some.inj hw
      exact ⟨approach, stay, congrArg some hvisit, hvisited⟩
    | succ k =>
      have hfirst : m.waypoints[index]? = some first := by
        have := congrArg (·[0]?) hws
        simpa using this
      have hrest : m.waypoints.drop (index + 1) = rest := by
        rw [← List.tail_drop, hws]
        rfl
      have hp' : (p.after (approach ++ stay)).target
          = (m.previous? (index + 1)).bind (sight? m) := by
        rw [hvisited.served.target, Mission.previous?, hfirst]
        rfl
      obtain ⟨approach', stay', hk, hvisited'⟩ :=
        ih ha' (fun w hm => hdef w (List.mem_cons_of_mem first hm)) hrest hp' k w hw
      have hindex : index + 1 + k = index + (k + 1) := by omega
      refine ⟨approach', stay', ?_, ?_⟩
      · rw [← hindex]
        exact hk
      · rw [← hindex, visits, List.take_succ_cons, List.flatten_cons, InForce.after_append, hvisit,
          after_fly]
        exact hvisited'

end Generate

namespace Mission

open Generate

/-- The commands before the first visit. -/
def overture (m : Mission) : Sequence :=
  (firstSpeed m).1 ++ m.takeOffActions.map Action.toCommand

/-- The commands of each waypoint. -/
def visits (m : Mission) : List Sequence :=
  Generate.visits m 0 m.waypoints (firstSpeed m).2

/-- The commands after the last visit. -/
def finale (m : Mission) (s : CompileSettings) : Sequence :=
  m.capture.mode.stop :: homeward m s

theorem generate_eq (m : Mission) (s : CompileSettings) :
    m.generate s = m.overture ++ m.visits.flatten ++ m.finale s := by
  rw [visits, flatten_visits]
  simp [generate, overture, finale]

theorem length_visits (m : Mission) : m.visits.length = m.waypoints.length :=
  Generate.length_visits m 0 m.waypoints _

theorem isWaypoint_overture (m : Mission) : ∀ c ∈ m.overture, c.isWaypoint = false := by
  refine List.forall_mem_append.mpr ⟨?_, ?_⟩
  · unfold firstSpeed
    cases m.waypoints <;> simp [Command.isWaypoint]
  · intro c hc
    obtain ⟨a, -, rfl⟩ := List.mem_map.mp hc
    exact isWaypoint_toCommand a

theorem isWaypoint_finale (m : Mission) (s : CompileSettings) :
    ∀ c ∈ m.finale s, c.isWaypoint = false := by
  refine List.forall_mem_cons.mpr ⟨?_, ?_⟩
  · cases m.capture.mode <;> rfl
  · unfold homeward
    split <;> simp [Command.isWaypoint]

/-- The take-off actions may tilt the camera, which the generator does not know of. -/
theorem agrees_overture (m : Mission) :
    (firstSpeed m).2.Agrees m (InForce.after {} m.overture) ∧
      (InForce.after {} m.overture).target = none := by
  have hactions (actions : List Action) (p : InForce) :
      ∃ tilt, p.after (actions.map Action.toCommand) = { p with tilt } := by
    induction actions generalizing p with
    | nil => exact ⟨p.tilt, rfl⟩
    | cons a rest ih =>
      cases a with
      | tilt angle => exact ih { p with tilt := some angle }
      | _ => exact ih p
  obtain ⟨tilt, ht⟩ := hactions m.takeOffActions (InForce.after {} (firstSpeed m).1)
  rw [overture, InForce.after_append, ht]
  unfold firstSpeed
  cases m.waypoints with
  | nil => exact ⟨⟨rfl, rfl, rfl, nofun, nofun⟩, rfl⟩
  | cons w rest => exact ⟨⟨rfl, rfl, rfl, nofun, nofun⟩, rfl⟩

/-- **A mission is flown as it was authored, though commands that change nothing are left out.**
The commands are the visits of the waypoints in their order, between an overture and a finale that
fly to none.  On the way to each waypoint its speed holds, the aircraft looks at what the waypoint
before follows, and if that is nothing, in the view for this one; when the visit is over, it looks
at what this one follows, and if that is nothing, the last tilt here holds. -/
theorem flown_as_authored (m : Mission) (s : CompileSettings)
    (hm : ∀ w ∈ m.waypoints, w.IsDefined) :
    m.generate s = m.overture ++ m.visits.flatten ++ m.finale s ∧
    (∀ c ∈ m.overture ++ m.finale s, c.isWaypoint = false) ∧
    m.visits.length = m.waypoints.length ∧
    ∀ k w, m.waypoints[k]? = some w → ∃ approach stay,
      m.visits[k]? = some (approach ++ fly m k w :: stay) ∧
      (∀ c ∈ approach ++ stay, c.isWaypoint = false) ∧
      Approached m k w (InForce.after {} (m.overture ++ (m.visits.take k).flatten ++ approach)) ∧
      Served m w (InForce.after {} (m.overture ++ (m.visits.take (k + 1)).flatten)) := by
  refine ⟨m.generate_eq s, ?_, m.length_visits, fun k w hw => ?_⟩
  · exact List.forall_mem_append.mpr ⟨m.isWaypoint_overture, m.isWaypoint_finale s⟩
  obtain ⟨ha, ht⟩ := m.agrees_overture
  obtain ⟨approach, stay, hk, hvisited⟩ :=
    visits_visited m.waypoints ha hm List.drop_zero ht k w hw
  rw [Nat.zero_add] at hk hvisited
  have hk : m.visits[k]? = some (approach ++ fly m k w :: stay) := hk
  refine ⟨approach, stay, hk, ?_, ?_, ?_⟩
  · exact List.forall_mem_append.mpr ⟨hvisited.approach_isWaypoint, hvisited.stay_isWaypoint⟩
  · rw [InForce.after_append, InForce.after_append]
    exact hvisited.approached
  · rw [List.take_add_one, hk, Option.toList_some, List.flatten_append, List.flatten_singleton,
      InForce.after_append, InForce.after_append, after_fly]
    exact hvisited.served

/-- The second of three waypoints follows a point of interest, so the tilt asked for there is left
out; the third refers to one that does not exist, and its tilt is that of the first. -/
def circuit : Mission where
  id := "circuit"
  name := "circuit"
  kind := .standard
  waypoints := [
    { place := ⟨45, 6⟩, altitude := 30, speed := 5, yaw := some 0, actions := [.tilt (-20)] },
    { place := ⟨45, 7⟩, altitude := 30, speed := 5, poi := some 0, actions := [.tilt (-45)] },
    { place := ⟨45, 8⟩, altitude := 30, speed := 8, poi := some 7,
      actions := [.delay 1, .tilt (-20)] }]
  pois := [{ place := ⟨46, 7⟩, altitude := 5 }]

theorem isDefined_circuit : ∀ w ∈ circuit.waypoints, w.IsDefined := by
  have hspeed : (5 : Float) ≠ .nan ∧ (8 : Float) ≠ .nan := by decide
  have htilt : (-20 : Float) ≠ .nan ∧ (-45 : Float) ≠ .nan := by decide
  simp [circuit, Waypoint.IsDefined, hspeed, htilt]

theorem circuit_flown :
    (∀ w ∈ circuit.waypoints, w.IsDefined) ∧
    ∃ approach stay,
      circuit.visits[2]? = some (approach ++ fly circuit 2 (circuit.waypoints[2]) :: stay) ∧
      (InForce.after {} (circuit.overture ++ (circuit.visits.take 2).flatten ++ approach)).target
        = some ⟨⟨46, 7⟩, 5, .relative⟩ ∧
      ∃ b, (InForce.after {} (circuit.overture ++ (circuit.visits.take 3).flatten)).tilt = some b ∧
        (b == -20) = true := by
  obtain ⟨-, -, -, hvisits⟩ := flown_as_authored circuit {} isDefined_circuit
  obtain ⟨approach, stay, hk, -, ha, hs⟩ := hvisits 2 _ rfl
  exact ⟨isDefined_circuit, approach, stay, hk, ha.target.trans rfl, hs.tilt hs.target (-20) rfl⟩

end Mission

end Sortie
