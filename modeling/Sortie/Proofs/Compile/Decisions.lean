import Sortie.Proofs.Compile.Reuse
import Sortie.Proofs.Store.Places

/-!
# What a compilation decides

A compilation asks one source after the other.  A plan that can be used again comes first, whatever
the mission has become (`Mission.compileIn_of_holds`).  Without one (`Compile.Vacant`) the commands
are `Compile.Sourced`: the import has them, or else the waypoints.  Each fault is that of one stage
(`Mission.compileIn_eq_error_iff`): a source without commands has its own, and the rest are those of
the two writes (`Compile.SaveFails`).  What is made of the commands is in the frame of their first
waypoint and leaves nothing open (`Compile.Made`).  `Mission.compileIn_decided` puts the stages
together.

A new plan is kept with its waypoint list unless both are one file.  The paths do not tell that:
they may be different and lead to the same file all the same (`not_forall_waylist_kept`).
-/

namespace Sortie

open Text (Bytes)

namespace Compile

/-! ### Sources -/

/-- A file holds a plan, and all items of that are commands. -/
def Holds (store : Store) (path : Store.Path) (plan : Plan) (commands : Sequence) : Prop :=
  ∃ bytes, store.read path = .ok (some bytes) ∧ Plan.ofBytes bytes = .ok plan ∧
    plan.commands = .ok commands

/-- There is no plan that can be used. -/
def Vacant (store : Store) (path : Store.Path) : Prop :=
  ∀ plan commands, ¬ Holds store path plan commands

variable {m : Mission} {s : CompileSettings} {store : Store} {path : Store.Path} {plan : Plan}
  {commands : Sequence} {waylist : List Char} {fault : CompileFault}

theorem stored?_of_holds (h : Holds store path plan commands) :
    stored? (store.read path) = some plan := by
  obtain ⟨bytes, hread, hplan, hcommands⟩ := h
  rw [hread]
  unfold stored?
  dsimp only
  rw [hplan]
  dsimp only
  rw [hcommands]
  rfl

theorem exists_holds (h : stored? (store.read path) = some plan) :
    ∃ commands, Holds store path plan commands := by
  unfold stored? at h
  split at h
  · next bytes hread =>
    split at h
    · next found hplan =>
      split at h
      · next hok =>
        obtain rfl := Option.some.inj h
        cases hcommands : found.commands with
        | error fault => rw [hcommands] at hok; cases hok
        | ok commands => exact ⟨commands, bytes, hread, hplan, hcommands⟩
      · cases h
    · cases h
  · cases h

theorem stored?_eq_none_iff : stored? (store.read path) = none ↔ Vacant store path := by
  constructor
  · intro h plan commands hholds
    rw [stored?_of_holds hholds] at h
    cases h
  · intro h
    cases hstored : stored? (store.read path) with
    | none => rfl
    | some plan =>
      obtain ⟨commands, hholds⟩ := exists_holds hstored
      exact absurd hholds (h plan commands)

/-- Where the commands of a new plan come from, with the waypoint list that goes with them. -/
inductive Sourced (m : Mission) (s : CompileSettings) : Sequence → List Char → Prop
  | imported {text : String} {commands : Sequence} (himported : m.imported = some text)
      (hread : Waylist.read text.toList = .ok commands) : Sourced m s commands text.toList
  | generated (himported : m.imported = none) (hkind : m.kind = .standard) :
      Sourced m s (m.generate s) (Waylist.write (m.generate s))

/-- Why there are no commands for a new plan. -/
inductive Unsourced (m : Mission) : CompileFault → Prop
  | malformed {text : String} {fault : CommandFault} (himported : m.imported = some text)
      (hread : Waylist.read text.toList = .error fault) : Unsourced m (.malformedImport fault)
  | prohibited (himported : m.imported = none) (hkind : m.kind ≠ .standard) :
      Unsourced m (.generationProhibited m.kind)

theorem source_cases (m : Mission) (s : CompileSettings) :
    (∃ commands waylist, source m s = .ok (commands, waylist) ∧ Sourced m s commands waylist) ∨
      ∃ fault, source m s = .error fault ∧ Unsourced m fault := by
  unfold source
  split
  · next text himported =>
    split
    · next commands hread => exact .inl ⟨_, _, rfl, .imported himported hread⟩
    · next fault hread => exact .inr ⟨_, rfl, .malformed himported hread⟩
  · next himported =>
    split
    · next hkind => exact .inl ⟨_, _, rfl, .generated himported (of_decide_eq_true hkind)⟩
    · next hkind =>
      exact .inr ⟨_, rfl, .prohibited himported fun h => hkind (decide_eq_true h)⟩

theorem source_eq_ok_iff : source m s = .ok (commands, waylist) ↔ Sourced m s commands waylist := by
  constructor
  · intro h
    rcases source_cases m s with ⟨_, _, hsource, hsourced⟩ | ⟨fault, hsource, -⟩
    · obtain ⟨rfl, rfl⟩ := Prod.mk.inj (Except.ok.inj (hsource.symm.trans h))
      exact hsourced
    · rw [hsource] at h
      cases h
  · intro h
    unfold source
    cases h with
    | imported himported hread => simp only [himported, hread]
    | generated himported hkind =>
      have hcan : m.kind.canGenerate = true := decide_eq_true hkind
      simp only [himported, hcan, if_true]

theorem source_eq_error_iff : source m s = .error fault ↔ Unsourced m fault := by
  constructor
  · intro h
    rcases source_cases m s with ⟨_, _, hsource, -⟩ | ⟨_, hsource, hunsourced⟩
    · rw [hsource] at h
      cases h
    · obtain rfl := Except.error.inj (hsource.symm.trans h)
      exact hunsourced
  · intro h
    unfold source
    cases h with
    | malformed himported hread => simp only [himported, hread]
    | prohibited himported hkind =>
      have hcannot : m.kind.canGenerate = false := decide_eq_false hkind
      simp only [himported, hcannot, Bool.false_eq_true, if_false]

/-- One of the two writes fails, that of the waypoint list coming first. -/
def SaveFails (store : Store) (waylistPath planPath : Store.Path) (waylist plan : Bytes)
    (fault : Store.Fault) : Prop :=
  (store.write waylistPath waylist).1 = .error fault ∨
    ((store.write waylistPath waylist).1 = .ok () ∧
      ((store.write waylistPath waylist).2.write planPath plan).1 = .error fault)

/-! ### New plans -/

/-- What is made of commands: the mission and its plan are in the frame of the first waypoint, and
all else in the plan is as the mission has it. -/
structure Made (m : Mission) (path : Store.Path) (commands : Sequence) (c : Compiled) : Prop where
  mission : c.mission = { m with isAbsolute := c.plan.isAbsolute }
  path : c.path = path
  version : c.plan.header.version = 1
  frame : c.plan.header.frame = .absolute ↔ ∃ before place altitude yaw hold after,
    commands = before ++ .waypoint place altitude yaw hold .absolute :: after ∧
      ∀ c ∈ before, c.isWaypoint = false
  digitalSignature : c.plan.header.digitalSignature = m.capture.digitalSignature
  settings : c.plan.settings =
    { missionId := m.id
      title := m.name
      returnOnCompletion := m.rth.onCompletion
      returnOnDisconnection := m.rth.onDisconnection
      customReturn := m.rth.custom }
  items : c.plan.items = .settings
    { obstacleAvoidance := m.capture.obstacleAvoidance
      exposureCompensation := m.capture.exposureCompensation
      whiteBalance := m.capture.whiteBalance
      videoResolution := m.capture.videoResolution
      photoResolution := m.capture.photoResolution
      frameRate := m.capture.frameRate } :: commands.map fun c => .command c.toItem
  commands : c.commands = commands

/-- The frame of a sequence is that of its first waypoint. -/
theorem frame?_eq_some_iff {frame : Frame} :
    Sequence.frame? commands = some frame ↔ ∃ before place altitude yaw hold after,
      commands = before ++ .waypoint place altitude yaw hold frame :: after ∧
        ∀ c ∈ before, c.isWaypoint = false := by
  unfold Sequence.frame?
  rw [List.findSome?_eq_some_iff]
  constructor
  · rintro ⟨before, c, after, rfl, hc, hbefore⟩
    cases c with
    | waypoint place altitude yaw hold =>
      obtain rfl := Option.some.inj hc
      refine ⟨before, place, altitude, yaw, hold, after, rfl, fun c hmem => ?_⟩
      have hnone := hbefore c hmem
      cases c <;> first | rfl | cases hnone
    | _ => cases hc
  · rintro ⟨before, place, altitude, yaw, hold, after, rfl, hbefore⟩
    refine ⟨before, _, after, rfl, rfl, fun c hmem => ?_⟩
    have hflown := hbefore c hmem
    cases c <;> first | rfl | cases hflown

/-- Without a waypoint the frame of a new plan is not absolute. -/
theorem frame_build_iff (m : Mission) (path : Store.Path) (commands : Sequence) :
    (build m path commands).plan.header.frame = .absolute ↔
      Sequence.frame? commands = some .absolute := by
  unfold build Plan.ofMission
  cases Sequence.frame? commands with
  | none => exact ⟨nofun, nofun⟩
  | some frame => exact Option.some_inj.symm

theorem made_build (m : Mission) (path : Store.Path) (commands : Sequence) :
    Made m path commands (build m path commands) where
  mission := by
    have hframe : decide (Sequence.frame? commands = some .absolute)
        = decide ((build m path commands).plan.header.frame = .absolute) :=
      decide_eq_decide.mpr (frame_build_iff m path commands).symm
    exact congrArg (fun b => { m with isAbsolute := b }) hframe
  path := rfl
  commands := rfl
  version := rfl
  frame := (frame_build_iff m path commands).trans frame?_eq_some_iff
  digitalSignature := rfl
  settings := rfl
  items := congrArg (_ :: ·) List.map_map

/-- What is made of commands is made in one way. -/
theorem Made.eq {c c' : Compiled} (h : Made m path commands c) (h' : Made m path commands c') :
    c = c' := by
  have hframe : c.plan.header.frame = c'.plan.header.frame := by
    have hiff := h.frame.trans h'.frame.symm
    cases hc : c.plan.header.frame <;> cases hc' : c'.plan.header.frame <;> simp_all
  have hheader : c.plan.header = c'.plan.header :=
    PlanHeader.ext (h.version.trans h'.version.symm) hframe
      (h.digitalSignature.trans h'.digitalSignature.symm)
  have hplan : c.plan = c'.plan :=
    Plan.ext hheader (h.settings.trans h'.settings.symm) (h.items.trans h'.items.symm)
  have hmission : c.mission = c'.mission := by
    rw [h.mission, h'.mission, hplan]
  exact Compiled.ext hmission (h.path.trans h'.path.symm) (h.commands.trans h'.commands.symm) hplan

end Compile

/-! ### Stages -/

namespace Mission

open Compile (Holds Vacant Sourced Unsourced SaveFails Made)

variable {m : Mission} {s : CompileSettings} {archive : Bool} {d d' : Depot} {c : Compiled}
  {plan : Plan} {commands : Sequence} {fault : CompileFault}

theorem compileIn_of_holds (m : Mission) (s : CompileSettings) (archive : Bool)
    (h : Holds d.store (d.store.planPath m.id) plan commands) :
    m.compileIn s archive d =
      (.ok { mission := { m with isAbsolute := plan.isAbsolute }
             path := d.store.planPath m.id
             commands
             plan }, d) := by
  have hcommands : plan.commands = .ok commands := h.choose_spec.2.2
  have hreuse := Compile.outcome_run m s (d.store.planPath m.id) (d.store.waylistPath m.id)
    archive d
  unfold compileIn
  generalize Task.run _ _ = r at hreuse ⊢
  cases hreuse with
  | reused hread =>
    obtain rfl := Option.some.inj (hread.symm.trans (Compile.stored?_of_holds h))
    unfold Compile.reuse
    rw [hcommands]
  | unmade hread _ | unlisted hread _ _ | unsaved hread _ _ _ | saved hread _ _ _ =>
    rw [Compile.stored?_of_holds h] at hread
    cases hread

/-- **A compilation fails if there is no source of commands, or if one of the writes fails.** -/
theorem compileIn_eq_error_iff :
    (m.compileIn s archive d).1 = .error fault ↔
      Vacant d.store (d.store.planPath m.id) ∧
        (Unsourced m fault ∨ ∃ commands waylist lost, Sourced m s commands waylist ∧
          fault = .unableToSave lost ∧
          SaveFails d.store (d.store.waylistPath m.id) (d.store.planPath m.id)
            (Text.encode waylist)
            (Compile.build m (d.store.planPath m.id) commands).plan.toBytes lost) := by
  simp only [← Compile.stored?_eq_none_iff, ← Compile.source_eq_error_iff (s := s),
    ← Compile.source_eq_ok_iff]
  have houtcome := Compile.outcome_run m s (d.store.planPath m.id) (d.store.waylistPath m.id)
    archive d
  unfold compileIn
  generalize Task.run _ _ = r at houtcome ⊢
  cases houtcome with
  | @reused plan hread =>
    obtain ⟨commands, -, hreuse⟩ := Compile.reuse_of_stored hread m (d.store.planPath m.id)
    simp [hreuse, hread]
  | unmade hread hsource =>
    simp [hread, hsource]
  | unlisted hread hsource hlist =>
    simpa [hread, hsource, SaveFails, hlist] using eq_comm
  | unsaved hread hsource hlist hplan =>
    simpa [hread, hsource, SaveFails, hlist, hplan] using eq_comm
  | saved hread hsource hlist hplan =>
    simp [hread, hsource, SaveFails, hlist, hplan]

/-- **What a compilation that made a new plan leaves.**  The plan is kept, and so is the waypoint
list unless that is the same file. -/
theorem kept_of_compileIn (h : m.compileIn s archive d = (.ok c, d'))
    (hvacant : Vacant d.store (d.store.planPath m.id)) :
    ∃ commands waylist, Sourced m s commands waylist ∧
      c = Compile.build m (d.store.planPath m.id) commands ∧
      d'.store.read (d.store.planPath m.id) = .ok (some c.plan.toBytes) ∧
      (¬ d'.store.Meet (d.store.planPath m.id) (d.store.waylistPath m.id) →
        d'.store.read (d.store.waylistPath m.id) = .ok (some (Text.encode waylist))) ∧
      d'.archive = if archive then d.archive.saveMission c.mission else d.archive := by
  obtain ⟨commands, waylist, store, hsource, hc, hlist, hplan, harchive⟩ :=
    compileIn_written h (Compile.stored?_eq_none_iff.mpr hvacant)
  exact ⟨commands, waylist, Compile.source_eq_ok_iff.mp hsource, hc, Store.read_write hplan,
    (Store.read_of_write hplan (Store.read_write hlist)).2, harchive⟩

/-- With plain endings the waypoint list is always kept. -/
theorem waylist_of_compileIn (h : m.compileIn s archive d = (.ok c, d'))
    (hvacant : Vacant d.store (d.store.planPath m.id)) (hplain : d.store.Plain) :
    ∃ commands waylist, Sourced m s commands waylist ∧
      d'.store.read (d.store.waylistPath m.id) = .ok (some (Text.encode waylist)) := by
  obtain ⟨commands, waylist, hsourced, -, -, hlist, -⟩ := kept_of_compileIn h hvacant
  have hnaming := naming_of_compileIn h (Compile.stored?_eq_none_iff.mpr hvacant)
  obtain ⟨hplanPath, hwaylistPath⟩ := Store.paths_of_naming hnaming
  have hapart := Store.not_meet_of_plain (hplain.of_naming hnaming) m.id
  rw [hplanPath, hwaylistPath] at hapart
  exact ⟨commands, waylist, hsourced, hlist hapart⟩

/-- What a compilation decides, stage by stage. -/
structure Decided (m : Mission) (s : CompileSettings) (archive : Bool) (d : Depot) : Prop where
  /-- A plan that can be used is used, and nothing is changed. -/
  reused : ∀ plan commands, Holds d.store (d.store.planPath m.id) plan commands →
    m.compileIn s archive d =
      (.ok { mission := { m with isAbsolute := plan.isAbsolute }
             path := d.store.planPath m.id
             commands
             plan }, d)
  /-- Otherwise an import counts, and has to be a waypoint list. -/
  malformed : ∀ fault, (m.compileIn s archive d).1 = .error (.malformedImport fault) ↔
    Vacant d.store (d.store.planPath m.id) ∧
      ∃ text, m.imported = some text ∧ Waylist.read text.toList = .error fault
  /-- Otherwise the waypoints count, and only those of a standard mission do. -/
  prohibited : ∀ kind, (m.compileIn s archive d).1 = .error (.generationProhibited kind) ↔
    Vacant d.store (d.store.planPath m.id) ∧ m.imported = none ∧ m.kind = kind ∧ kind ≠ .standard
  /-- With commands from either, both files have to be written. -/
  unsaved : ∀ fault, (m.compileIn s archive d).1 = .error (.unableToSave fault) ↔
    Vacant d.store (d.store.planPath m.id) ∧
      ∃ commands waylist c, Sourced m s commands waylist ∧
        Made m (d.store.planPath m.id) commands c ∧
        SaveFails d.store (d.store.waylistPath m.id) (d.store.planPath m.id)
          (Text.encode waylist) c.plan.toBytes fault
  /-- A plan is never found to be invalid. -/
  valid : ∀ fault, (m.compileIn s archive d).1 ≠ .error (.invalidPlan fault)
  /-- A new plan is made of the commands of the source, and is kept with their waypoint list. -/
  saved : ∀ c d', m.compileIn s archive d = (.ok c, d') →
    Vacant d.store (d.store.planPath m.id) →
      ∃ commands waylist, Sourced m s commands waylist ∧
        Made m (d.store.planPath m.id) commands c ∧
        d'.store.read (d.store.planPath m.id) = .ok (some c.plan.toBytes) ∧
        (¬ d'.store.Meet (d.store.planPath m.id) (d.store.waylistPath m.id) →
          d'.store.read (d.store.waylistPath m.id) = .ok (some (Text.encode waylist))) ∧
        d'.archive = if archive then d.archive.saveMission c.mission else d.archive
  /-- The frame of the mission is that of its plan. -/
  framed : ∀ c d', m.compileIn s archive d = (.ok c, d') →
    c.mission.isAbsolute = c.plan.isAbsolute

/-- **Every compilation decides so.** -/
theorem compileIn_decided (m : Mission) (s : CompileSettings) (archive : Bool) (d : Depot) :
    m.Decided s archive d where
  reused plan commands := compileIn_of_holds m s archive
  malformed fault := by
    rw [compileIn_eq_error_iff]
    refine and_congr_right fun _ => ⟨?_, ?_⟩
    · rintro (hunsourced | ⟨_, _, _, -, hfault, -⟩)
      · cases hunsourced with
        | malformed himported hread => exact ⟨_, himported, hread⟩
      · cases hfault
    · rintro ⟨text, himported, hread⟩
      exact .inl (.malformed himported hread)
  prohibited kind := by
    rw [compileIn_eq_error_iff]
    refine and_congr_right fun _ => ⟨?_, ?_⟩
    · rintro (hunsourced | ⟨_, _, _, -, hfault, -⟩)
      · cases hunsourced with
        | prohibited himported hkind => exact ⟨himported, rfl, hkind⟩
      · cases hfault
    · rintro ⟨himported, rfl, hkind⟩
      exact .inl (.prohibited himported hkind)
  unsaved fault := by
    rw [compileIn_eq_error_iff]
    refine and_congr_right fun _ => ⟨?_, ?_⟩
    · rintro (hunsourced | ⟨commands, waylist, lost, hsourced, hfault, hfails⟩)
      · cases hunsourced
      · obtain rfl := CompileFault.unableToSave.inj hfault
        exact ⟨commands, waylist, _, hsourced, Compile.made_build m _ commands, hfails⟩
    · rintro ⟨commands, waylist, c, hsourced, hmade, hfails⟩
      obtain rfl := hmade.eq (Compile.made_build m _ commands)
      exact .inr ⟨commands, waylist, fault, hsourced, rfl, hfails⟩
  valid fault := by
    rw [ne_eq, compileIn_eq_error_iff]
    rintro ⟨-, hunsourced | ⟨_, _, _, -, hfault, -⟩⟩
    · cases hunsourced
    · cases hfault
  saved c d' h hvacant := by
    obtain ⟨commands, waylist, hsourced, rfl, hkept⟩ := kept_of_compileIn h hvacant
    exact ⟨commands, waylist, hsourced, Compile.made_build m _ commands, hkept⟩
  framed c d' h := by
    cases hstored : Compile.stored? (d.store.read (d.store.planPath m.id)) with
    | some plan =>
      obtain ⟨commands, hholds⟩ := Compile.exists_holds hstored
      rw [compileIn_of_holds m s archive hholds] at h
      obtain rfl := Except.ok.inj (Prod.mk.inj h).1
      rfl
    | none =>
      obtain ⟨commands, -, -, rfl, -⟩ :=
        kept_of_compileIn h (Compile.stored?_eq_none_iff.mp hstored)
      exact congrArg Mission.isAbsolute (Compile.made_build m _ commands).mission

end Mission

/-! ### One file for both -/

/-- A tree of folders with one place for the plan and the waypoint list of the mission `field`. -/
def crossedFolders : Store.Directory :=
  .empty (Store.Path.ofString "store") "plan" "x/../field.plan"

theorem not_forall_waylist_kept :
    ¬ ∀ (m : Mission) (s : CompileSettings) (archive : Bool) (d d' : Depot) (c : Compiled),
      Compile.Vacant d.store (d.store.planPath m.id) →
      (d.store.planPath m.id == d.store.waylistPath m.id) = false →
      m.compileIn s archive d = (.ok c, d') →
      ∃ commands waylist, Compile.Sourced m s commands waylist ∧
        d'.store.read (d.store.waylistPath m.id) = .ok (some (Text.encode waylist)) := by
  intro hall
  have hvacant : Compile.Vacant (.directory crossedFolders)
      ((Store.directory crossedFolders).planPath "field") :=
    Compile.stored?_eq_none_iff.mp rfl
  have hcompile : plainMission.compileIn {} false ⟨.directory crossedFolders, {}⟩ = (.ok _, _) := rfl
  have hother : ((Store.directory crossedFolders).planPath "field"
      == (Store.directory crossedFolders).waylistPath "field") = false := by decide +kernel
  obtain ⟨commands, waylist, hsourced, hread⟩ := hall _ _ _ _ _ _ hvacant hother hcompile
  cases hsourced with
  | imported himported _ => cases himported
  | generated _ _ =>
    -- A waypoint list does not begin like a plan.
    have hbegins := congrArg (fun found => found.toOption.join.bind List.head?) hread
    exact absurd hbegins (by decide +kernel)

end Sortie
