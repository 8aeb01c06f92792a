import Sortie.Proofs.Command.Items
import Sortie.Proofs.Compile.Outcomes

/-!
# Compiling again

The plan that a compilation keeps decides the next one of a mission of the same id, however it has
been edited.  So what was compiled is used again (`Mission.Recompiles`) if and only if the plan in the
store is read as it was written.  The commands in it are no obstacle: their counts keep to their
types, whether they were generated (`Mission.Fits.generate`) or come from a list of the user
(`Waylist.fits_of_read`).  What is left are the numbers that are not whole, and
`Mission.recompiles_iff` says that it hangs on each of them alone.

A list of the user may hold a number that is not finite, and such a plan is never read again
(`not_forall_recompiles`).
-/

namespace Sortie

/-! ### Commands that keep to their types -/

namespace Mission

/-- The whole numbers of a mission keep to 32 bits. -/
structure Fits (m : Mission) : Prop where
  takeOff : ∀ a ∈ m.takeOffActions, a.toCommand.Fits
  actions : ∀ w ∈ m.waypoints, ∀ a ∈ w.actions, a.toCommand.Fits
  frameRate : ∀ rate ∈ m.capture.frameRate, rate ≤ 4294967295

variable (m : Mission)

theorem fits_viewMode (index : Nat) : (m.viewMode index).Fits := by
  have hown (yaw : Option Float) :
      (if yaw.isNone then ViewMode.ahead else ViewMode.absolute).Fits := by
    cases yaw <;> trivial
  unfold viewMode
  split
  · trivial
  · next w _ =>
    dsimp only
    split
    · next poi _ =>
      split
      · exact Nat.le_of_lt_succ (Nat.mod_lt poi (by decide))
      · exact hown w.yaw
    · exact hown w.yaw

end Mission

namespace Generate

open Sequence.Fits (nil cons append)

theorem fits_setSpeed (speed : Float) (h : Held) : Sequence.Fits (setSpeed speed h).1 := by
  unfold setSpeed
  split
  · exact nil
  · exact cons trivial nil

theorem fits_setView {view : ViewMode} (hview : view.Fits) (h : Held) :
    Sequence.Fits (setView view h).1 := by
  unfold setView
  split
  · exact cons hview nil
  · exact nil

theorem fits_setTarget (pois : List PointOfInterest) (frame : Frame) {view : ViewMode}
    (hview : view.Fits) (target : Option Nat) (h : Held) :
    Sequence.Fits (setTarget pois frame view target h).1 := by
  unfold setTarget
  split
  · exact nil
  · split
    · exact cons trivial nil
    · exact cons trivial (cons hview nil)

theorem fits_act {actions : List Action} (hactions : ∀ a ∈ actions, a.toCommand.Fits) (h : Held) :
    Sequence.Fits (act actions h).1 := by
  induction actions generalizing h with
  | nil => exact nil
  | cons a rest ih =>
    have hrest := ih fun b hb => hactions b (List.mem_cons_of_mem a hb)
    cases a with
    | tilt angle =>
      unfold act
      split
      · exact hrest h
      · exact cons trivial (hrest _)
    | _ => exact cons (hactions _ List.mem_cons_self) (hrest h)

theorem fits_startCapture (m : Mission) (index : Nat) : Sequence.Fits (startCapture m index) := by
  unfold startCapture
  split
  · refine cons trivial (cons ?_ nil)
    cases m.capture.mode <;> trivial
  · exact nil

theorem fits_visit (m : Mission) (frame : Frame) (index : Nat) {w : Waypoint}
    (hactions : ∀ a ∈ w.actions, a.toCommand.Fits) (h : Held) :
    Sequence.Fits (visit m frame index w h).1 :=
  append (append (fits_setSpeed _ _) (fits_setView (m.fits_viewMode index) _))
    (cons trivial (append (append (fits_setTarget _ _ (m.fits_viewMode index) _ _)
      (fits_act hactions _)) (fits_startCapture m index)))

theorem fits_visitAll (m : Mission) (frame : Frame) (index : Nat) {ws : List Waypoint}
    (hactions : ∀ w ∈ ws, ∀ a ∈ w.actions, a.toCommand.Fits) (h : Held) :
    Sequence.Fits (visitAll m frame index ws h) := by
  induction ws generalizing index h with
  | nil => exact nil
  | cons w ws ih =>
    exact append (fits_visit m frame index (hactions w List.mem_cons_self) h)
      (ih (index + 1) (fun w' hw => hactions w' (List.mem_cons_of_mem w hw)) _)

end Generate

open Sequence.Fits in
theorem Mission.Fits.generate {m : Mission} (h : m.Fits) (s : CompileSettings) :
    Sequence.Fits (m.generate s) := by
  have hspeed : Sequence.Fits (Generate.firstSpeed m).1 := by
    unfold Generate.firstSpeed
    split
    · exact nil
    · exact cons trivial nil
  have htakeOff : Sequence.Fits (m.takeOffActions.map Action.toCommand) := by
    intro c hc
    obtain ⟨a, ha, rfl⟩ := List.mem_map.mp hc
    exact h.takeOff a ha
  have hstop : Sequence.Fits [m.capture.mode.stop] :=
    cons (by cases m.capture.mode <;> trivial) nil
  have hhome : Sequence.Fits (Generate.homeward m s) := by
    unfold Generate.homeward
    split
    · exact cons trivial (cons trivial nil)
    · exact nil
  exact append (append (append (append hspeed htakeOff)
    (Generate.fits_visitAll m _ 0 h.actions _)) hstop) hhome

/-! ### What is kept -/

namespace Plan

variable {m : Mission} {s : Sequence}

theorem fits_ofMission (hrate : ∀ rate ∈ m.capture.frameRate, rate ≤ 4294967295) :
    (ofMission m s).Fits where
  version := by
    show formatVersion ≤ 4294967295
    decide
  items i hi := by
    rcases List.mem_cons.mp hi with rfl | hi
    · exact hrate
    · obtain ⟨item, hitem, rfl⟩ := List.mem_map.mp hi
      obtain ⟨c, -, rfl⟩ := List.mem_map.mp hitem
      exact c.fits_toItem

theorem commands_ofMission (hs : s.Fits) : (ofMission m s).commands = .ok s := by
  have hitems : (ofMission m s).items.filterMap PlanItem.item? = s.toItems := by
    show (s.toItems.map PlanItem.command).filterMap PlanItem.item? = _
    rw [List.filterMap_map]
    exact List.filterMap_some
  unfold commands
  rw [hitems]
  exact Sequence.ofItems_toItems hs

end Plan

namespace Compile

variable {m : Mission} {s : CompileSettings}

/-- A plan that was written is used as it is read back, if that holds commands. -/
theorem stored?_toBytes {p : Plan} (h : p.Fits) :
    stored? (.ok (some p.toBytes)) = p.reread.filter (·.commands.isOk) := by
  have hread := Plan.toOption_ofBytes h
  unfold stored?
  dsimp only
  cases hbytes : Plan.ofBytes p.toBytes with
  | error fault =>
    rw [hbytes] at hread
    rw [← hread]
    rfl
  | ok plan =>
    rw [hbytes] at hread
    rw [← hread]
    show (if plan.commands.isOk = true then some plan else none) = (some plan).filter _
    rw [Option.filter_some]

theorem source_imported {text : String} {commands : Sequence} (himported : m.imported = some text)
    (h : Waylist.read text.toList = .ok commands) : source m s = .ok (commands, text.toList) := by
  unfold source
  rw [himported]
  dsimp only
  rw [h]

theorem fits_of_source (hm : m.Fits) {commands : Sequence} {waylist : List Char}
    (h : source m s = .ok (commands, waylist)) : commands.Fits := by
  unfold source at h
  split at h
  · split at h
    · next hread =>
      obtain ⟨rfl, -⟩ := Prod.mk.inj (Except.ok.inj h)
      exact Waylist.fits_of_read hread
    · cases h
  · split at h
    · obtain ⟨rfl, -⟩ := Prod.mk.inj (Except.ok.inj h)
      exact hm.generate s
    · cases h

end Compile

/-! ### The next compilation -/

namespace Mission

/-- Compiles a mission with the paths that the store has for it. -/
def compileIn (m : Mission) (s : CompileSettings) (archive : Bool) (d : Depot) :
    Except CompileFault Compiled × Depot :=
  (m.compile s (d.store.planPath m.id) (d.store.waylistPath m.id) archive).run d

variable {m : Mission} {s : CompileSettings} {archive : Bool} {d d' : Depot} {c : Compiled}

/-- A plan that is kept is used again, and nothing is changed. -/
theorem compileIn_of_stored (m : Mission) (s : CompileSettings) (archive : Bool) {plan : Plan}
    (h : Compile.stored? (d.store.read (d.store.planPath m.id)) = some plan) :
    ∃ c, m.compileIn s archive d = (.ok c, d) ∧ c.path = d.store.planPath m.id ∧
      plan.commands = .ok c.commands ∧ c.plan = plan := by
  obtain ⟨commands, hcommands, hreuse⟩ := Compile.reuse_of_stored h m (d.store.planPath m.id)
  let c : Compiled :=
    { mission := { m with isAbsolute := plan.isAbsolute }
      path := d.store.planPath m.id
      commands
      plan }
  refine ⟨c, ?_, rfl, hcommands, rfl⟩
  unfold compileIn compile
  rw [Task.run, h, ← hreuse]
  rfl

/-- Without a plan, a mission that is not flown by its waypoints is not compiled. -/
theorem compileIn_of_not_stored (s : CompileSettings) (archive : Bool)
    (hkind : m.kind.canGenerate = false) (himported : m.imported = none)
    (h : Compile.stored? (d.store.read (d.store.planPath m.id)) = none) :
    (m.compileIn s archive d).1 = .error (.generationProhibited m.kind) := by
  have hsource : Compile.source m s = .error (.generationProhibited m.kind) := by
    unfold Compile.source
    rw [himported]
    dsimp only
    rw [hkind]
    rfl
  unfold compileIn compile
  rw [Task.run, h]
  dsimp only
  rw [hsource]
  rfl

/-- A compilation that made a new plan has written both files, the waypoint list first. -/
theorem compileIn_written (h : m.compileIn s archive d = (.ok c, d'))
    (hread : Compile.stored? (d.store.read (d.store.planPath m.id)) = none) :
    ∃ commands waylist store, Compile.source m s = .ok (commands, waylist) ∧
      c = Compile.build m (d.store.planPath m.id) commands ∧
      d.store.write (d.store.waylistPath m.id) (Text.encode waylist) = (.ok (), store) ∧
      store.write (d.store.planPath m.id) c.plan.toBytes = (.ok (), d'.store) ∧
      d'.archive = if archive then d.archive.saveMission c.mission else d.archive := by
  have houtcome := Compile.outcome_run m s (d.store.planPath m.id) (d.store.waylistPath m.id)
    archive d
  unfold compileIn at h
  rw [h] at houtcome
  generalize hr : ((.ok c, d') : Except CompileFault Compiled × Depot) = r at houtcome
  cases houtcome with
  | reused hfound => rw [hread] at hfound; cases hfound
  | unmade _ _ => cases (Prod.mk.inj hr).1
  | unlisted _ _ _ => cases (Prod.mk.inj hr).1
  | unsaved _ _ _ _ => cases (Prod.mk.inj hr).1
  | @saved commands waylist store store' _ hsource hlist hplan =>
    obtain ⟨hc, rfl⟩ := Prod.mk.inj hr
    obtain rfl := Except.ok.inj hc
    exact ⟨commands, waylist, store, hsource, rfl, hlist, hplan, rfl⟩

/-- A compilation that made a new plan does not change what files are named by. -/
theorem naming_of_compileIn (h : m.compileIn s archive d = (.ok c, d'))
    (hread : Compile.stored? (d.store.read (d.store.planPath m.id)) = none) :
    d'.store.naming = d.store.naming := by
  obtain ⟨commands, waylist, store, -, -, hlist, hplan, -⟩ := compileIn_written h hread
  exact (Store.naming_of_write hplan).trans (Store.naming_of_write hlist)

/-- After a compilation that made a new plan, that plan is in its place. -/
theorem compileIn_saved (h : m.compileIn s archive d = (.ok c, d'))
    (hread : Compile.stored? (d.store.read (d.store.planPath m.id)) = none) :
    ∃ commands waylist, Compile.source m s = .ok (commands, waylist) ∧
      c = Compile.build m (d.store.planPath m.id) commands ∧
      d'.store.planPath = d.store.planPath ∧
      d'.store.read (d.store.planPath m.id) = .ok (some c.plan.toBytes) := by
  obtain ⟨commands, waylist, store, hsource, hc, -, hplan, -⟩ := compileIn_written h hread
  exact ⟨commands, waylist, hsource, hc, (Store.paths_of_naming (naming_of_compileIn h hread)).1,
    Store.read_write hplan⟩

/-- In a memory that takes everything, commands that can be made are compiled. -/
theorem exists_compileIn_memory (archive : Bool) (kept : Archive) {files : Store.Memory}
    {commands : Sequence} {waylist : List Char} (hopen : ∀ p, files.refuses p = false)
    (hread : Compile.stored? ((Store.memory files).read (Store.Memory.planPath m.id)) = none)
    (hsource : Compile.source m s = .ok (commands, waylist)) :
    ∃ d', m.compileIn s archive ⟨.memory files, kept⟩
      = (.ok (Compile.build m (Store.Memory.planPath m.id) commands), d') := by
  have houtcome := Compile.outcome_run m s (Store.Memory.planPath m.id)
    (Store.Memory.waylistPath m.id) archive ⟨.memory files, kept⟩
  unfold compileIn
  show ∃ d', (m.compile s (Store.Memory.planPath m.id) (Store.Memory.waylistPath m.id) archive).run
    ⟨.memory files, kept⟩ = _
  generalize Task.run _ _ = r at houtcome ⊢
  cases houtcome with
  | reused hfound => rw [hread] at hfound; cases hfound
  | unmade _ hfault => rw [hsource] at hfault; cases hfault
  | unlisted _ _ hlist =>
    have hrefused := (Store.Memory.write_eq_error hlist).1
    rw [hopen] at hrefused
    cases hrefused
  | unsaved _ _ hlist hplan =>
    obtain ⟨-, rfl⟩ := Store.Memory.write_eq_ok hlist
    have hrefused := (Store.Memory.write_eq_error hplan).1
    rw [Store.Memory.refuses_write, hopen] at hrefused
    cases hrefused
  | saved _ hmade =>
    rw [hsource] at hmade
    obtain ⟨rfl, rfl⟩ := Prod.mk.inj (Except.ok.inj hmade)
    exact ⟨_, rfl⟩

/-- What was compiled is what any compilation of a mission of that id gives, and the store is left
as it is. -/
def Recompiles (c : Compiled) (missionId : String) (d : Depot) : Prop :=
  ∀ (m : Mission) (s : CompileSettings) (archive : Bool), m.id = missionId →
    ∃ c', m.compileIn s archive d = (.ok c', d) ∧ c'.path = c.path ∧ c'.commands = c.commands ∧
      c'.plan = c.plan

theorem recompiles_of_stored {missionId : String} (hpath : c.path = d.store.planPath missionId)
    (hcommands : c.plan.commands = .ok c.commands)
    (h : Compile.stored? (d.store.read (d.store.planPath missionId)) = some c.plan) :
    Recompiles c missionId d := by
  rintro m s archive rfl
  obtain ⟨c', hc', hpath', hcommands', hplan'⟩ :=
    compileIn_of_stored m s archive h
  exact ⟨c', hc', hpath'.trans hpath.symm, Except.ok.inj (hcommands'.symm.trans hcommands), hplan'⟩

/-- A new plan that is not read as it was written is not used again by a mission that is not flown by
its waypoints. -/
theorem stored_of_recompiles {m : Mission} (h : Recompiles c m.id d) :
    Compile.stored? (d.store.read (d.store.planPath m.id)) = some c.plan := by
  let m' : Mission := { m with kind := .survey, imported := none }
  obtain ⟨c', hc', -, -, hplan'⟩ := h m' {} false rfl
  cases hread : Compile.stored? (d.store.read (d.store.planPath m.id)) with
  | none =>
    have hprohibited := compileIn_of_not_stored (m := m') {} false rfl rfl hread
    rw [hc'] at hprohibited
    cases hprohibited
  | some plan =>
    obtain ⟨c₀, hc₀, -, -, hplan₀⟩ := compileIn_of_stored m' {} false hread
    have hsame : c₀ = c' := Except.ok.inj (Prod.mk.inj (hc₀.symm.trans hc')).1
    rw [← hplan', ← hsame, hplan₀]

/-- What was compiled is used again exactly if it can be, and is read as it was written. -/
theorem recompiles_iff_stored {m : Mission} (hpath : c.path = d.store.planPath m.id)
    (hcommands : c.plan.commands = .ok c.commands) :
    Recompiles c m.id d ↔
      Compile.stored? (d.store.read (d.store.planPath m.id)) = some c.plan :=
  ⟨stored_of_recompiles, recompiles_of_stored hpath hcommands⟩

/-- A new plan is used again exactly if each of its numbers is read as it was written. -/
theorem recompiles_iff_of_new (hfits : m.Fits) (h : m.compileIn s archive d = (.ok c, d'))
    (hread : Compile.stored? (d.store.read (d.store.planPath m.id)) = none) :
    Recompiles c m.id d' ↔ ∀ x ∈ c.plan.floats, Json.reread x = some x := by
  obtain ⟨commands, waylist, hsource, rfl, hpath, hfound⟩ := compileIn_saved h hread
  have hplan : (Compile.build m (d.store.planPath m.id) commands).plan.Fits :=
    Plan.fits_ofMission hfits.frameRate
  have hcommands : (Compile.build m (d.store.planPath m.id) commands).plan.commands
      = .ok commands := Plan.commands_ofMission (Compile.fits_of_source hfits hsource)
  have hok : (Compile.build m (d.store.planPath m.id) commands).plan.commands.isOk = true := by
    rw [hcommands]
    rfl
  rw [recompiles_iff_stored (congrFun hpath.symm m.id) hcommands, hpath, hfound,
    Compile.stored?_toBytes hplan, Option.filter_eq_some_iff, ← Plan.reread_eq_self_iff]
  exact and_iff_left hok

/-- **What was compiled is used again exactly if it was used again itself, or if each number of the
new plan is read as it was written.** -/
theorem recompiles_iff (hfits : m.Fits) (h : m.compileIn s archive d = (.ok c, d')) :
    Recompiles c m.id d' ↔
      (Compile.stored? (d.store.read (d.store.planPath m.id))).isSome = true ∨
        ∀ x ∈ c.plan.floats, Json.reread x = some x := by
  cases hread : Compile.stored? (d.store.read (d.store.planPath m.id)) with
  | some plan =>
    refine iff_of_true ?_ (.inl rfl)
    obtain ⟨c', hc', hpath, hcommands, hplan⟩ :=
      compileIn_of_stored m s archive hread
    obtain ⟨hc, rfl⟩ := Prod.mk.inj (hc'.symm.trans h)
    obtain rfl := Except.ok.inj hc
    exact recompiles_of_stored hpath (hplan ▸ hcommands) (hplan ▸ hread)
  | none =>
    rw [recompiles_iff_of_new hfits h hread]
    simp

end Mission

/-! ### Two missions -/

/-- A mission with one waypoint, where the aircraft hovers. -/
def hoverMission : Mission where
  id := "hover"
  name := "hover"
  kind := .standard
  waypoints := [{ place := ⟨48.5, 2.25⟩, altitude := 30, speed := 5, yaw := some 0 }]

theorem recompiles_hover :
    ∃ c d, hoverMission.compileIn {} false ⟨.memory {}, {}⟩ = (.ok c, d) ∧
      Mission.Recompiles c "hover" d := by
  have hfits : hoverMission.Fits :=
    ⟨by simp [hoverMission], by simp [hoverMission], by simp [hoverMission]⟩
  have hcompile : hoverMission.compileIn {} false ⟨.memory {}, {}⟩ = (.ok _, _) := rfl
  have hnumbers := Mission.recompiles_iff hfits hcompile
  exact ⟨_, _, hcompile, hnumbers.mpr (.inr (by decide +kernel))⟩

/-- A waypoint list with a delay of no certain length. -/
def vagueList : String :=
  "QGC WPL 120\n0\t1\t2\t93\tnan\t-1\t-1\t-1\t0\t0\t0\t1\n"

def vagueMission : Mission where
  id := "vague"
  name := "vague"
  kind := .imported
  imported := some vagueList

/-- What was compiled is not always used again. -/
theorem not_forall_recompiles :
    ¬ ∀ (m : Mission) (s : CompileSettings) (archive : Bool) (d d' : Depot) (c : Compiled),
      m.Fits → m.compileIn s archive d = (.ok c, d') → Mission.Recompiles c m.id d' := by
  intro hall
  have hlist : Waylist.read vagueList.toList = .ok [.delay (0.0 / 0.0)] := by decide +kernel
  have hsource : Compile.source vagueMission {} = .ok ([.delay (0.0 / 0.0)], vagueList.toList) :=
    Compile.source_imported rfl hlist
  have hfits : vagueMission.Fits :=
    ⟨by simp [vagueMission], by simp [vagueMission], by simp [vagueMission]⟩
  have hread : Compile.stored? ((Store.memory {}).read ((Store.memory {}).planPath "vague")) = none :=
    rfl
  obtain ⟨d', hcompile⟩ :=
    Mission.exists_compileIn_memory (m := vagueMission) false {} (fun _ => rfl) hread hsource
  have hc : (0.0 / 0.0 : Float) ∈ (Compile.build vagueMission (Store.Memory.planPath "vague")
      [.delay (0.0 / 0.0)]).plan.floats :=
    List.mem_append_right _ (List.mem_flatMap.mpr ⟨.command (Command.delay (0.0 / 0.0)).toItem,
      List.mem_cons_of_mem _ List.mem_cons_self, List.mem_cons_self⟩)
  have hsame := (Mission.recompiles_iff_of_new hfits hcompile hread).mp
    (hall _ _ _ _ _ _ hfits hcompile) _ hc
  have hlost : Json.reread (0.0 / 0.0) = none := Json.reread_of_not_finite (by decide +kernel)
  rw [hlost] at hsame
  cases hsame

end Sortie
