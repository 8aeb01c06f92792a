import Mathlib
import Sortie.Compile.Generate
import Sortie.Mission.Edit

/-!
# Points of interest renumbered

When a point of interest is removed, the later ones move down by one, and references move with them
(`shiftIndex`).  Away from the one removed this loses nothing: an index is read back from where it
has moved (`getElem?_eraseIdx_shiftIndex`), so references resolve to what they did, and those that
led nowhere still do.

The generator compares indices and nothing else of a reference, so its run over the mission without
the point is its run over the mission, moved (`Held.renumber`).  What a visit needs for that is that
neither the view nor the target that holds is the one removed (`Held.Spares`), which the visits of
waypoints that do not follow it preserve.
-/

namespace Sortie

/-- Where an index moves when the entry at `removed` is taken out. -/
def shiftIndex (removed index : Nat) : Nat :=
  if removed < index then index - 1 else index

variable {i j k : Nat}

theorem shiftIndex_inj (hj : j ≠ i) (hk : k ≠ i) : shiftIndex i j = shiftIndex i k ↔ j = k := by
  unfold shiftIndex
  constructor
  · intro h
    split at h <;> split at h <;> omega
  · rintro rfl
    rfl

theorem getElem?_eraseIdx_shiftIndex {α : Type} (l : List α) (h : j ≠ i) :
    (l.eraseIdx i)[shiftIndex i j]? = l[j]? := by
  unfold shiftIndex
  rw [List.getElem?_eraseIdx]
  split
  · next hlt =>
    rw [if_neg (by omega)]
    congr 1
    omega
  · rw [if_pos (by omega)]

theorem shiftIndex_lt_iff {n : Nat} (hi : i < n) (h : j ≠ i) :
    shiftIndex i j < n - 1 ↔ j < n := by
  unfold shiftIndex
  split <;> omega

/-! ### A mission without a point of interest -/

namespace Waypoint

/-- The waypoint with its reference moved. -/
def withoutPoi (removed : Nat) (w : Waypoint) : Waypoint :=
  { w with poi := Mission.shiftReference removed w.poi }

/-- The waypoint does not follow the point of interest of an index. -/
def Spares (removed : Nat) (w : Waypoint) : Prop :=
  w.poi ≠ some removed

theorem poi_withoutPoi_of_eq {w : Waypoint} (h : w.poi = some i) : (w.withoutPoi i).poi = none := by
  unfold withoutPoi
  rw [h]
  exact if_pos rfl

theorem poi_withoutPoi {w : Waypoint} (h : w.Spares i) :
    (w.withoutPoi i).poi = w.poi.map (shiftIndex i) := by
  unfold withoutPoi Mission.shiftReference shiftIndex
  cases hp : w.poi with
  | none => rfl
  | some index =>
    have hne : index ≠ i := fun heq => h (hp.trans (congrArg some heq))
    dsimp only
    rw [if_neg hne, Option.map_some]
    split <;> rfl

end Waypoint

namespace Mission

/-- The mission without the point of interest of an index. -/
def withoutPoi (m : Mission) (removed : Nat) : Mission :=
  { m with
    pois := m.pois.eraseIdx removed
    waypoints := m.waypoints.map (Waypoint.withoutPoi removed)
    version := m.version + 1 }

variable {m : Mission} {w : Waypoint}

/-- A point of interest can be removed exactly if there is a next version. -/
theorem removePoi_eq (h : i < m.pois.length) :
    m.removePoi i = if m.version + 1 < 4294967296 then .ok (m.pois[i], m.withoutPoi i)
      else .error .overflow := by
  unfold removePoi
  rw [List.getElem?_eq_getElem h]
  by_cases hnext : m.version + 1 < 4294967296
  · rw [if_pos hnext]
    exact congrArg (Except.map _) (if_pos hnext)
  · rw [if_neg hnext]
    exact congrArg (Except.map _) (if_neg hnext)

/-- A reference to another point of interest resolves to it, wherever it has moved. -/
theorem target?_withoutPoi (m : Mission) (h : w.Spares i) :
    (m.withoutPoi i).target? (w.withoutPoi i) = m.target? w := by
  unfold target?
  rw [Waypoint.poi_withoutPoi h]
  cases hp : w.poi with
  | none => rfl
  | some index => exact getElem?_eraseIdx_shiftIndex m.pois fun heq => h (hp.trans (congrArg some heq))

theorem getElem?_withoutPoi (m : Mission) (index : Nat) :
    (m.withoutPoi i).waypoints[index]? = m.waypoints[index]?.map (Waypoint.withoutPoi i) :=
  List.getElem?_map

theorem next?_withoutPoi (m : Mission) (index : Nat) :
    (m.withoutPoi i).next? index = (m.next? index).map (Waypoint.withoutPoi i) :=
  m.getElem?_withoutPoi (index + 1)

theorem previous?_withoutPoi (m : Mission) (index : Nat) :
    (m.withoutPoi i).previous? index = (m.previous? index).map (Waypoint.withoutPoi i) := by
  cases index with
  | zero => rfl
  | succ index => exact m.getElem?_withoutPoi index

/-- No waypoint follows the point of interest of an index. -/
def Spares (m : Mission) (removed : Nat) : Prop :=
  ∀ w ∈ m.waypoints, w.Spares removed

theorem yaw_withoutPoi (hfree : m.Spares i) (index : Nat) :
    (m.withoutPoi i).yaw index = m.yaw index := by
  unfold yaw
  rw [getElem?_withoutPoi, next?_withoutPoi, previous?_withoutPoi]
  cases hw : m.waypoints[index]? with
  | none => rfl
  | some w =>
    have htarget := m.target?_withoutPoi (hfree w (List.mem_of_getElem? hw))
    have hyaw : (w.withoutPoi i).yaw = w.yaw := rfl
    simp only [Option.map_some, htarget, hyaw]
    -- What a neighbour follows does not count, so the four cases are the same.
    cases w.yaw with
    | some yaw => rfl
    | none =>
      cases m.target? w with
      | some poi => rfl
      | none =>
        cases m.next? index with
        | some next => rfl
        | none => cases m.previous? index <;> rfl

end Mission

/-! ### What is generated -/

namespace ViewMode

/-- The view with the point of interest that it names moved. -/
def renumber (removed : Nat) : ViewMode → ViewMode
  | target index => target (shiftIndex removed index)
  | view => view

theorem renumber_inj {v w : ViewMode} (hv : v ≠ target i) (hw : w ≠ target i) :
    v.renumber i = w.renumber i ↔ v = w := by
  cases v with
  | target j =>
    cases w with
    | target k =>
      have hj : j ≠ i := fun h => hv (congrArg target h)
      have hk : k ≠ i := fun h => hw (congrArg target h)
      simp only [renumber, target.injEq]
      exact shiftIndex_inj hj hk
    | _ => exact ⟨nofun, nofun⟩
  | _ =>
    cases w with
    | target k => exact ⟨nofun, nofun⟩
    | _ => rfl

end ViewMode

/-- The command with the point of interest that a view names moved. -/
def Command.renumber (removed : Nat) : Command → Command
  | .view mode => .view (mode.renumber removed)
  | c => c

namespace Mission

variable {m : Mission} (hfree : m.Spares i)

include hfree

theorem viewMode_ne_target (hcount : m.pois.length < 4294967296) (index : Nat) :
    m.viewMode index ≠ .target i := by
  unfold viewMode
  split
  · nofun
  · next w hw =>
    have hown : (if w.yaw.isNone then ViewMode.ahead else .absolute) ≠ .target i := by
      split <;> nofun
    dsimp only
    split
    · next poi hp =>
      split
      · next hlt =>
        rw [Nat.mod_eq_of_lt (hlt.trans hcount)]
        intro heq
        exact hfree w (List.mem_of_getElem? hw) (hp.trans (congrArg some (ViewMode.target.inj heq)))
      · exact hown
    · exact hown

theorem viewMode_withoutPoi (hi : i < m.pois.length) (hcount : m.pois.length < 4294967296)
    (index : Nat) : (m.withoutPoi i).viewMode index = (m.viewMode index).renumber i := by
  have hlength : (m.withoutPoi i).pois.length = m.pois.length - 1 := List.length_eraseIdx_of_lt hi
  unfold viewMode
  rw [getElem?_withoutPoi]
  cases hw : m.waypoints[index]? with
  | none => rfl
  | some w =>
    have hown : (if w.yaw.isNone then ViewMode.ahead else .absolute).renumber i
        = if w.yaw.isNone then ViewMode.ahead else .absolute := by
      split <;> rfl
    have hspares := hfree w (List.mem_of_getElem? hw)
    dsimp only [Option.map_some]
    rw [Waypoint.poi_withoutPoi hspares]
    cases hp : w.poi with
    | none => exact hown.symm
    | some poi =>
      have hne : poi ≠ i := fun heq => hspares (hp.trans (congrArg some heq))
      dsimp only [Option.map_some]
      rw [hlength]
      by_cases hlt : poi < m.pois.length
      · have hshift := (shiftIndex_lt_iff hi hne).mpr hlt
        rw [if_pos hlt, if_pos hshift, Nat.mod_eq_of_lt (hlt.trans hcount),
          Nat.mod_eq_of_lt (by omega)]
        rfl
      · rw [if_neg hlt, if_neg fun hshift => hlt ((shiftIndex_lt_iff hi hne).mp hshift)]
        exact hown.symm

end Mission

namespace Generate

/-- What holds, with the point of interest that it names moved. -/
def Held.renumber (removed : Nat) (h : Held) : Held :=
  { h with
    view := h.view.map (ViewMode.renumber removed)
    target := h.target.map (shiftIndex removed) }

/-- Neither the view nor the target is the point of interest of an index. -/
structure Held.Spares (removed : Nat) (h : Held) : Prop where
  view : h.view ≠ some (.target removed)
  target : h.target ≠ some removed

/-- A piece of a visit does the same when what it works on is renumbered, and does not bring in the
point of interest removed. -/
structure Commutes (removed : Nat) (piece moved : Sequence × Held) : Prop where
  commands : moved.1 = piece.1.map (Command.renumber removed)
  held : moved.2 = piece.2.renumber removed
  spares : piece.2.Spares removed

variable {h : Held}

theorem map_shiftIndex_inj {r r' : Option Nat} (hr : r ≠ some i) (hr' : r' ≠ some i) :
    r.map (shiftIndex i) = r'.map (shiftIndex i) ↔ r = r' := by
  cases r with
  | none => cases r' <;> simp
  | some j =>
    cases r' with
    | none => simp
    | some k =>
      have hj : j ≠ i := fun heq => hr (congrArg some heq)
      have hk : k ≠ i := fun heq => hr' (congrArg some heq)
      simpa using shiftIndex_inj hj hk

theorem commutes_setSpeed (hs : h.Spares i) (speed : Float) :
    Commutes i (setSpeed speed h) (setSpeed speed (h.renumber i)) := by
  unfold setSpeed
  show Commutes i _ (if h.speed == some speed then _ else _)
  split
  · exact ⟨rfl, rfl, hs⟩
  · exact ⟨rfl, rfl, hs.view, hs.target⟩

theorem commutes_setView (hs : h.Spares i) {view : ViewMode} (hview : view ≠ .target i) :
    Commutes i (setView view h) (setView (view.renumber i) (h.renumber i)) := by
  have hsame : h.view.map (ViewMode.renumber i) = some (view.renumber i) ↔ h.view = some view := by
    cases hv : h.view with
    | none => simp
    | some held =>
      have hheld : held ≠ .target i := fun heq => hs.view (hv.trans (congrArg some heq))
      simpa using ViewMode.renumber_inj hheld hview
  have hwhen : ((h.renumber i).target.isNone ∧ (h.renumber i).view ≠ some (view.renumber i)) ↔
      (h.target.isNone ∧ h.view ≠ some view) := by
    show ((h.target.map _).isNone ∧ ¬ h.view.map (ViewMode.renumber i) = _) ↔ _
    rw [Option.isNone_map, hsame]
  unfold setView
  simp only [hwhen]
  split
  · exact ⟨rfl, rfl, fun heq => hview (Option.some.inj heq), hs.target⟩
  · exact ⟨rfl, rfl, hs⟩

theorem commutes_setTarget (hs : h.Spares i) (pois : List PointOfInterest) (frame : Frame)
    {view : ViewMode} (hview : view ≠ .target i) {target : Option Nat} (ht : target ≠ some i) :
    Commutes i (setTarget pois frame view target h)
      (setTarget (pois.eraseIdx i) frame (view.renumber i) (target.map (shiftIndex i))
        (h.renumber i)) := by
  have hpoi : (target.map (shiftIndex i)).bind ((pois.eraseIdx i)[·]?) = target.bind (pois[·]?) := by
    cases target with
    | none => rfl
    | some j => exact getElem?_eraseIdx_shiftIndex pois fun heq => ht (congrArg some heq)
  have hsame : target.map (shiftIndex i) = (h.renumber i).target ↔ target = h.target :=
    map_shiftIndex_inj ht hs.target
  unfold setTarget
  simp only [hsame, hpoi]
  split
  · exact ⟨rfl, rfl, hs⟩
  · split
    · exact ⟨rfl, rfl, hs.view, ht⟩
    · exact ⟨rfl, rfl, fun heq => hview (Option.some.inj heq), ht⟩

theorem renumber_toCommand (a : Action) : a.toCommand.renumber i = a.toCommand := by
  cases a <;> rfl

theorem commutes_act (hs : h.Spares i) (actions : List Action) :
    Commutes i (act actions h) (act actions (h.renumber i)) := by
  induction actions generalizing h with
  | nil => exact ⟨rfl, rfl, hs⟩
  | cons a rest ih =>
    have hkeep {h : Held} (hs : h.Spares i) :
        Commutes i (a.toCommand :: (act rest h).1, (act rest h).2)
          (a.toCommand :: (act rest (h.renumber i)).1, (act rest (h.renumber i)).2) := by
      obtain ⟨hcommands, hheld, hspares⟩ := ih hs
      refine ⟨?_, hheld, hspares⟩
      rw [List.map_cons, renumber_toCommand, hcommands]
    cases a with
    | tilt angle =>
      have hskip : ((h.renumber i).target.isSome || (h.renumber i).tilt == some angle)
          = (h.target.isSome || h.tilt == some angle) := by
        show ((h.target.map _).isSome || _) = _
        rw [Option.isSome_map]
        rfl
      simp only [act, hskip]
      split
      · exact ih hs
      · exact hkeep (h := { h with tilt := some angle }) ⟨hs.view, hs.target⟩
    | _ => exact hkeep hs

theorem renumber_startCapture (m : Mission) (index : Nat) :
    (startCapture m index).map (Command.renumber i) = startCapture m index := by
  unfold startCapture
  split
  · cases m.capture.mode <;> rfl
  · rfl

theorem startCapture_withoutPoi (m : Mission) (index : Nat) :
    startCapture (m.withoutPoi i) index = startCapture m index := by
  unfold startCapture
  show (if index = 0 ∧ 1 < (m.waypoints.map _).length then _ else _) = _
  rw [List.length_map]
  rfl

theorem targetIndex?_withoutPoi {m : Mission} (hi : i < m.pois.length) {w : Waypoint}
    (hw : w.Spares i) :
    targetIndex? (m.withoutPoi i) (w.withoutPoi i) = (targetIndex? m w).map (shiftIndex i) := by
  have hlength : (m.withoutPoi i).pois.length = m.pois.length - 1 := List.length_eraseIdx_of_lt hi
  unfold targetIndex?
  rw [Waypoint.poi_withoutPoi hw, hlength]
  cases hp : w.poi with
  | none => rfl
  | some index =>
    have hne : index ≠ i := fun heq => hw (hp.trans (congrArg some heq))
    simp only [Option.map_some, Option.filter_some, decide_eq_true_eq, shiftIndex_lt_iff hi hne]
    split <;> rfl

theorem targetIndex?_ne {m : Mission} {w : Waypoint} (hw : w.Spares i) :
    targetIndex? m w ≠ some i :=
  fun heq => hw (Option.filter_eq_some_iff.mp heq).1

section

variable {m : Mission} (hfree : m.Spares i) (hi : i < m.pois.length)
  (hcount : m.pois.length < 4294967296)

include hfree hi hcount

/-- **A visit does the same when its mission and what holds before it are renumbered.** -/
theorem commutes_visit (hs : h.Spares i) (frame : Frame) (index : Nat) {w : Waypoint}
    (hw : w.Spares i) :
    Commutes i (visit m frame index w h)
      (visit (m.withoutPoi i) frame index (w.withoutPoi i) (h.renumber i)) := by
  have hview := m.viewMode_ne_target hfree hcount index
  obtain ⟨hspeed, hspeedHeld, hspeedSpares⟩ := commutes_setSpeed hs w.speed
  obtain ⟨hlook, hlookHeld, hlookSpares⟩ := commutes_setView hspeedSpares hview
  obtain ⟨htrack, htrackHeld, htrackSpares⟩ :=
    commutes_setTarget hlookSpares m.pois frame hview (targetIndex?_ne (m := m) hw)
  obtain ⟨hact, hactHeld, hactSpares⟩ := commutes_act htrackSpares w.actions
  -- Each piece starts from what the one before has left, renumbered.
  rw [← hspeedHeld] at hlook hlookHeld
  rw [← hlookHeld] at htrack htrackHeld
  rw [← htrackHeld] at hact hactHeld
  unfold visit
  rw [m.viewMode_withoutPoi hfree hi hcount, m.yaw_withoutPoi hfree,
    targetIndex?_withoutPoi hi hw, startCapture_withoutPoi]
  refine ⟨?_, hactHeld, hactSpares⟩
  simp only [List.map_append, List.map_cons, renumber_startCapture]
  rw [← hspeed, ← hlook, ← htrack, ← hact]
  rfl

theorem visitAll_withoutPoi (hs : h.Spares i) (frame : Frame) (index : Nat) {ws : List Waypoint}
    (hws : ∀ w ∈ ws, w.Spares i) :
    visitAll (m.withoutPoi i) frame index (ws.map (Waypoint.withoutPoi i)) (h.renumber i)
      = (visitAll m frame index ws h).map (Command.renumber i) := by
  induction ws generalizing index h with
  | nil => rfl
  | cons w rest ih =>
    obtain ⟨hcommands, hheld, hspares⟩ :=
      commutes_visit hfree hi hcount hs frame index (hws w List.mem_cons_self)
    have hrest := ih hspares (index + 1) fun w' hw => hws w' (List.mem_cons_of_mem w hw)
    simp only [List.map_cons, visitAll, List.map_append]
    rw [hcommands, hheld, hrest]

end

end Generate

namespace Mission

open Generate

/-- The commands are those of the mission with the point of interest, renumbered. -/
theorem generate_withoutPoi {m : Mission} (hfree : m.Spares i) (hi : i < m.pois.length)
    (hcount : m.pois.length < 4294967296) (s : CompileSettings) :
    (m.withoutPoi i).generate s = (m.generate s).map (Command.renumber i) := by
  have hfirst : Commutes i (firstSpeed m) (firstSpeed (m.withoutPoi i)) := by
    have hwaypoints : (m.withoutPoi i).waypoints = m.waypoints.map (Waypoint.withoutPoi i) := rfl
    unfold firstSpeed
    rw [hwaypoints]
    cases m.waypoints with
    | nil => exact ⟨rfl, rfl, nofun, nofun⟩
    | cons w rest => exact ⟨rfl, rfl, nofun, nofun⟩
  have htakeOff : (m.takeOffActions.map Action.toCommand).map (Command.renumber i)
      = m.takeOffActions.map Action.toCommand := by
    rw [List.map_map]
    exact List.map_congr_left fun a _ => renumber_toCommand a
  have hstop : [m.capture.mode.stop].map (Command.renumber i) = [m.capture.mode.stop] := by
    cases m.capture.mode <;> rfl
  have hhome : (homeward m s).map (Command.renumber i) = homeward m s := by
    unfold homeward
    split <;> rfl
  have hvisits := visitAll_withoutPoi hfree hi hcount hfirst.spares
    (Frame.ofAbsolute m.isAbsolute) 0 hfree
  unfold generate
  simp only [List.map_append, htakeOff, hstop, hhome]
  rw [← hvisits, ← hfirst.commands, ← hfirst.held]
  rfl

/-- **Removing a point of interest renumbers the others and changes nothing else.**  Waypoints that
followed it follow none, all others resolve to what they did, and if there were none that followed
it, the commands differ in the numbers of later points of interest alone.  Only in the last version
there is can none be removed. -/
theorem removePoi_renumbers {m : Mission} (hcount : m.pois.length < 4294967296)
    (hi : i < m.pois.length) :
    (4294967296 ≤ m.version + 1 → m.removePoi i = .error .overflow) ∧
    (m.version + 1 < 4294967296 → ∃ m' : Mission, m.removePoi i = .ok (m.pois[i], m') ∧
      m'.version = m.version + 1 ∧
      m'.waypoints.length = m.waypoints.length ∧
      (∀ (k : Nat) (w w' : Waypoint), m.waypoints[k]? = some w → m'.waypoints[k]? = some w' →
        w' = { w with poi := w'.poi } ∧
        (w.poi = some i → w'.poi = none) ∧
        (w.poi ≠ some i → w'.poi.isSome = w.poi.isSome ∧ m'.target? w' = m.target? w)) ∧
      ((∀ w ∈ m.waypoints, w.poi ≠ some i) → ∀ s : CompileSettings,
        m'.generate s = (m.generate s).map (Command.renumber i))) := by
  rw [removePoi_eq hi]
  refine ⟨fun hlast => if_neg (Nat.not_lt_of_le hlast), fun hnext => ?_⟩
  refine ⟨m.withoutPoi i, if_pos hnext, rfl, List.length_map _, ?_,
    fun hfree s => generate_withoutPoi hfree hi hcount s⟩
  intro k w w' hw hw'
  rw [getElem?_withoutPoi, hw] at hw'
  obtain rfl := Option.some.inj hw'
  refine ⟨rfl, Waypoint.poi_withoutPoi_of_eq, fun hne => ⟨?_, m.target?_withoutPoi hne⟩⟩
  rw [Waypoint.poi_withoutPoi hne, Option.isSome_map]

/-- The first waypoint follows the second of two points of interest, the last one none that
exists. -/
def detour : Mission where
  id := "detour"
  name := "detour"
  kind := .standard
  waypoints := [
    { place := ⟨45, 6⟩, altitude := 30, speed := 5, poi := some 1 },
    { place := ⟨45, 7⟩, altitude := 30, speed := 5 },
    { place := ⟨45, 8⟩, altitude := 30, speed := 5, poi := some 2 }]
  pois := [{ place := ⟨46, 6⟩, altitude := 0 }, { place := ⟨46, 7⟩, altitude := 5 }]

theorem removePoi_renumbers_detour :
    detour.pois.length < 4294967296 ∧ 0 < detour.pois.length ∧
    detour.version + 1 < 4294967296 ∧
    (∀ w ∈ detour.waypoints, w.poi ≠ some 0) ∧
    (∃ m' : Mission, detour.removePoi 0 = .ok (⟨⟨46, 6⟩, 0⟩, m') ∧
      m'.generate {} = (detour.generate {}).map (Command.renumber 0)) ∧
    { detour with version := 4294967295 }.removePoi 0 = .error .overflow := by
  have hcount : detour.pois.length < 4294967296 := by decide
  have hi : 0 < detour.pois.length := by decide
  have hnext : detour.version + 1 < 4294967296 := by decide
  have hfree : ∀ w ∈ detour.waypoints, w.poi ≠ some 0 := by decide
  obtain ⟨m', hremove, -, -, -, hcommands⟩ := (removePoi_renumbers hcount hi).2 hnext
  have hlast := (removePoi_renumbers (m := { detour with version := 4294967295 }) hcount hi).1
  exact ⟨hcount, hi, hnext, hfree, ⟨m', hremove, hcommands hfree {}⟩, hlast (by decide)⟩

end Mission

end Sortie
