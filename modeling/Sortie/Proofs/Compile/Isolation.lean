import Sortie.Proofs.Compile.Reuse
import Sortie.Proofs.Store.Names

/-!
# Missions of different ids

A compilation writes at the paths of its own mission only, and what it leaves at the path of the
plan is a plan of that mission or what was there before (`Effect`).  So every plan in memory has the
id that it is kept under (`Owned`) as long as no two ids have their files at the same path, and then
missions are compiled apart from one another (`Isolated`).

Ids are used in paths as they are, so different ids may have the same path, and then the mission
that is compiled second is given the plan of the first (`exists_shared_plan`).  `isolated_iff` says
that this is the only way in which missions meet.
-/

namespace Sortie

open Store.Memory (planPath waylistPath)

theorem Plan.missionId_of_reread {p q : Plan} (h : p.reread = some q) :
    q.settings.missionId = p.settings.missionId := by
  simp only [reread, PlanSettings.reread, Option.bind_eq_bind, Option.bind_eq_some_iff,
    Option.pure_def, Option.some.injEq] at h
  obtain ⟨settings, ⟨custom, -, rfl⟩, items, -, rfl⟩ := h
  rfl

theorem Store.Memory.get?_congr {files : Store.Memory} {p q : Store.Path} (h : (p == q) = true) :
    files.get? p = files.get? q := by
  have hsame (f : Store.Path × Text.Bytes) : (f.1 == p) = (f.1 == q) := by
    rw [Store.Path.beq_comm f.1 p, Store.Path.beq_comm f.1 q, Store.Path.beq_congr h]
  unfold get?
  simp only [hsame]

namespace Compile

/-! ### What a compilation does in memory -/

variable {m : Mission} {s : CompileSettings} {archive : Bool} {files files' : Store.Memory}
  {kept : Archive} {ids : Set String}

/-- What a compilation in memory returns and leaves. -/
structure Effect (m : Mission) (files files' : Store.Memory)
    (result : Except CompileFault Compiled) : Prop where
  other : ∀ p, (planPath m.id == p) = false → (waylistPath m.id == p) = false →
    files'.get? p = files.get? p
  plan : files'.get? (planPath m.id) = files.get? (planPath m.id) ∨
    ∃ commands, files'.get? (planPath m.id)
      = some (build m (planPath m.id) commands).plan.toBytes
  result : ∀ c, result = .ok c →
    stored? (.ok (files.get? (planPath m.id))) = some c.plan ∨ c.plan.settings.missionId = m.id

theorem get?_write_waylist {data : Text.Bytes}
    (haccepted : files.refuses (waylistPath m.id) = false) :
    (files.write (waylistPath m.id) data).2.get? (planPath m.id) = files.get? (planPath m.id) := by
  rw [files.get?_write _ _ data haccepted, Store.Path.beq_comm,
    Store.Memory.planPath_beq_waylistPath, if_neg Bool.false_ne_true]

theorem effect_of_kept {result : Except CompileFault Compiled}
    (h : ∀ c, result = .ok c → stored? (.ok (files.get? (planPath m.id))) = some c.plan) :
    Effect m files files result :=
  ⟨fun _ _ _ => rfl, .inl rfl, fun c hc => .inl (h c hc)⟩

theorem exists_effect (m : Mission) (s : CompileSettings) (archive : Bool) (files : Store.Memory)
    (kept : Archive) : ∃ files' kept',
      (m.compileIn s archive ⟨.memory files, kept⟩).2 = ⟨.memory files', kept'⟩ ∧
        Effect m files files' (m.compileIn s archive ⟨.memory files, kept⟩).1 := by
  have houtcome := outcome_run m s (planPath m.id) (waylistPath m.id) archive ⟨.memory files, kept⟩
  have hcompile : m.compileIn s archive ⟨.memory files, kept⟩
      = (m.compile s (planPath m.id) (waylistPath m.id) archive).run ⟨.memory files, kept⟩ := rfl
  rw [hcompile]
  generalize (m.compile s (planPath m.id) (waylistPath m.id) archive).run _ = r at houtcome
  cases houtcome with
  | @reused plan hread =>
    refine ⟨files, kept, rfl, effect_of_kept fun c hc => ?_⟩
    obtain ⟨commands, -, hreuse⟩ := reuse_of_stored hread m (planPath m.id)
    obtain rfl := Except.ok.inj (hreuse.symm.trans hc)
    exact hread
  | unmade hread hsource =>
    exact ⟨files, kept, rfl, effect_of_kept fun c hc => by cases hc⟩
  | unlisted hread hsource hlist =>
    obtain ⟨-, rfl⟩ := Store.Memory.write_eq_error hlist
    exact ⟨files, kept, rfl, effect_of_kept fun c hc => by cases hc⟩
  | unsaved hread hsource hlist hplan =>
    obtain ⟨haccepted, rfl⟩ := Store.Memory.write_eq_ok hlist
    obtain ⟨-, rfl⟩ := Store.Memory.write_eq_error hplan
    refine ⟨_, kept, rfl, ⟨fun p _ hp => ?_, .inl ?_, fun c hc => by cases hc⟩⟩
    · rw [Store.Memory.get?_remove, hp, files.get?_write _ _ _ haccepted, hp]
      rfl
    · rw [Store.Memory.get?_remove, get?_write_waylist haccepted, Store.Path.beq_comm,
        Store.Memory.planPath_beq_waylistPath]
      rfl
  | @saved commands waylist _ _ hread hsource hlist hplan =>
    obtain ⟨hlisted, rfl⟩ := Store.Memory.write_eq_ok hlist
    obtain ⟨hplanned, rfl⟩ := Store.Memory.write_eq_ok hplan
    refine ⟨_, _, rfl, ⟨fun p hp hp' => ?_, .inr ⟨commands, ?_⟩, fun c hc => .inr ?_⟩⟩
    · rw [Store.Memory.get?_write _ _ _ _ hplanned, hp, files.get?_write _ _ _ hlisted, hp']
      rfl
    · rw [Store.Memory.get?_write _ _ _ _ hplanned, if_pos (Store.Path.beq_iff_parts.mpr rfl)]
    · obtain rfl := Except.ok.inj hc
      rfl

/-! ### Plans under their own ids -/

/-- A plan kept at the path of one of the ids has that id. -/
def Owned (ids : Set String) (files : Store.Memory) : Prop :=
  ∀ i ∈ ids, ∀ plan, stored? (.ok (files.get? (planPath i))) = some plan →
    plan.settings.missionId = i

/-- No two of the ids have their plans at the same path. -/
def Apart (ids : Set String) : Prop :=
  ∀ i ∈ ids, ∀ j ∈ ids, (planPath i == planPath j) = true → i = j

theorem apart_of_no_slash : Apart {i | '/' ∉ i.toList} := by
  intro i hi j hj h
  rw [Store.Memory.planPath_beq_iff] at h
  exact (Store.samePlace_iff_of_no_slash hi hj).mp h

theorem missionId_of_stored_build (hm : m.Fits) {commands : Sequence} {plan : Plan}
    (h : stored? (.ok (some (build m (planPath m.id) commands).plan.toBytes)) = some plan) :
    plan.settings.missionId = m.id := by
  have hfits : (build m (planPath m.id) commands).plan.Fits := Plan.fits_ofMission hm.frameRate
  rw [stored?_toBytes hfits, Option.filter_eq_some_iff] at h
  exact Plan.missionId_of_reread h.1

/-- A compilation keeps every plan under its own id. -/
theorem Effect.owned {result : Except CompileFault Compiled} (h : Effect m files files' result)
    (hm : m.Fits) (hid : m.id ∈ ids) (hapart : Apart ids) (howned : Owned ids files) :
    Owned ids files' := by
  intro i hi plan hplan
  cases hpath : planPath m.id == planPath i with
  | true =>
    obtain rfl := hapart m.id hid i hi hpath
    rcases h.plan with hkept | ⟨commands, hnew⟩
    · rw [hkept] at hplan
      exact howned m.id hi plan hplan
    · rw [hnew] at hplan
      exact missionId_of_stored_build hm hplan
  | false =>
    have hlist : (waylistPath m.id == planPath i) = false := by
      rw [Store.Path.beq_comm]
      exact Store.Memory.planPath_beq_waylistPath i m.id
    rw [h.other _ hpath hlist] at hplan
    exact howned i hi plan hplan

end Compile

/-! ### Compilations one after another -/

structure Compile.Call where
  mission : Mission
  settings : CompileSettings := {}
  archive : Bool := false

namespace Compile

def Call.run (call : Call) (d : Depot) : Except CompileFault Compiled × Depot :=
  call.mission.compileIn call.settings call.archive d

/-- What compilations leave, one after another. -/
def after (d : Depot) (calls : List Call) : Depot :=
  calls.foldl (fun d call => (call.run d).2) d

/-- The call is for a mission of one of the ids. -/
structure Call.IsFor (ids : Set String) (call : Call) : Prop where
  id : call.mission.id ∈ ids
  fits : call.mission.Fits

/-- However missions of these ids are compiled one after another, with no files in memory at first,
each is given a plan of its own, and the files of other ids are left alone. -/
def Isolated (ids : Set String) : Prop :=
  ∀ (refusal : Store.Refusal) (kept : Archive) (calls : List Call) (call : Call),
    (∀ c ∈ calls, c.IsFor ids) → call.IsFor ids →
    let d := after ⟨.memory { refusal }, kept⟩ calls
    (∀ c, (call.run d).1 = .ok c → c.plan.settings.missionId = call.mission.id) ∧
      ∀ i ∈ ids, i ≠ call.mission.id →
        (call.run d).2.store.read (planPath i) = d.store.read (planPath i) ∧
        (call.run d).2.store.read (waylistPath i) = d.store.read (waylistPath i)

variable {ids : Set String} {files : Store.Memory} {kept : Archive} {call : Call}

theorem exists_after (hapart : Apart ids) {calls : List Call} (hcalls : ∀ c ∈ calls, c.IsFor ids)
    (howned : Owned ids files) : ∃ files' kept',
      after ⟨.memory files, kept⟩ calls = ⟨.memory files', kept'⟩ ∧ Owned ids files' := by
  induction calls generalizing files kept with
  | nil => exact ⟨files, kept, rfl, howned⟩
  | cons call calls ih =>
    have hcall := hcalls call List.mem_cons_self
    obtain ⟨files', kept', hrun, heffect⟩ :=
      exists_effect call.mission call.settings call.archive files kept
    obtain ⟨files'', kept'', hafter, howned''⟩ : ∃ files'' kept'',
        after ⟨.memory files', kept'⟩ calls = ⟨.memory files'', kept''⟩ ∧ Owned ids files'' :=
      ih (fun c hc => hcalls c (List.mem_cons_of_mem call hc))
        (heffect.owned hcall.fits hcall.id hapart howned)
    refine ⟨files'', kept'', ?_, howned''⟩
    rw [← hafter, ← hrun]
    rfl

theorem isolated_of_apart (hapart : Apart ids) : Isolated ids := by
  intro refusal kept calls call hcalls hcall
  have hempty : Owned ids { refusal } := by
    intro i hi plan hplan
    cases hplan
  obtain ⟨files, kept', hafter, howned⟩ : ∃ files kept',
      after ⟨.memory { refusal }, kept⟩ calls = ⟨.memory files, kept'⟩ ∧ Owned ids files :=
    exists_after hapart hcalls hempty
  obtain ⟨files', kept'', hrun, heffect⟩ :=
    exists_effect call.mission call.settings call.archive files kept'
  dsimp only
  rw [hafter]
  refine ⟨fun c hc => ?_, fun i hi hne => ?_⟩
  · rcases heffect.result c hc with hstored | hown
    · exact howned call.mission.id hcall.id c.plan hstored
    · exact hown
  · have hplan : (planPath call.mission.id == planPath i) = false :=
      Bool.eq_false_iff.mpr fun h => hne (hapart _ hcall.id i hi h).symm
    have hlist : (waylistPath call.mission.id == waylistPath i) = false := by
      refine Bool.eq_false_iff.mpr fun h => Bool.eq_false_iff.mp hplan ?_
      rwa [Store.Memory.planPath_beq_iff, ← Store.Memory.waylistPath_beq_iff]
    have hcross := Store.Memory.planPath_beq_waylistPath
    have hcross' : (waylistPath call.mission.id == planPath i) = false := by
      rw [Store.Path.beq_comm]
      exact hcross i _
    show (call.mission.compileIn call.settings call.archive _).2.store.read _ = _ ∧
      (call.mission.compileIn call.settings call.archive _).2.store.read _ = _
    rw [hrun]
    exact ⟨congrArg Except.ok (heffect.other _ hplan hcross'),
      congrArg Except.ok (heffect.other _ (hcross _ i) hlist)⟩

/-! ### Ids with the same path -/

/-- A mission that only ends the recording. -/
def bareMission (id : String) : Mission where
  id
  name := id
  kind := .standard

theorem isFor_bareMission {id : String} (h : id ∈ ids) :
    Call.IsFor ids { mission := bareMission id } :=
  ⟨h, ⟨by simp [bareMission], by simp [bareMission], by simp [bareMission]⟩⟩

def barePlan (id : String) : Plan :=
  (build (bareMission id) (planPath id) [.stopVideo]).plan

theorem fits_barePlan (id : String) : (barePlan id).Fits :=
  Plan.fits_ofMission (by simp [bareMission])

theorem reread_barePlan (id : String) : (barePlan id).reread = some (barePlan id) := by
  have hfloats : (barePlan id).floats = [0, 0, 0, 0, 0, 0, 0] := rfl
  rw [Plan.reread_eq_self_iff, hfloats]
  decide +kernel

theorem commands_barePlan (id : String) : (barePlan id).commands = .ok [.stopVideo] :=
  Plan.commands_ofMission (.cons trivial .nil)

/-- Where two ids have the same path, the mission compiled second is given the plan of the first. -/
theorem exists_shared_plan {i j : String} (h : (planPath i == planPath j) = true) :
    ∃ c, (Call.run { mission := bareMission j }
        (after ⟨.memory {}, {}⟩ [{ mission := bareMission i }])).1 = .ok c ∧
      c.plan.settings.missionId = i := by
  have hsource : source (bareMission i) {} = .ok ([.stopVideo], Waylist.write [.stopVideo]) := rfl
  have hread : stored? ((Store.memory {}).read (planPath i)) = none := rfl
  obtain ⟨d, hfirst⟩ := Mission.exists_compileIn_memory (m := bareMission i) false {}
    (fun _ => rfl) hread hsource
  obtain ⟨files, kept, hmemory, -⟩ := exists_effect (bareMission i) {} false {} {}
  obtain rfl : d = ⟨.memory files, kept⟩ := by rw [← hmemory, hfirst]
  have hkept : files.get? (planPath i) = some (barePlan i).toBytes := by
    obtain ⟨_, _, _, hc, _, hfound⟩ := Mission.compileIn_saved hfirst hread
    exact Except.ok.inj hfound
  have hstored : stored? ((Store.memory files).read (planPath j)) = some (barePlan i) := by
    show stored? (.ok (files.get? (planPath j))) = some (barePlan i)
    rw [← Store.Memory.get?_congr h, hkept, stored?_toBytes (fits_barePlan i), reread_barePlan,
      Option.filter_some, commands_barePlan]
    rfl
  obtain ⟨c, hc, -, -, hplan⟩ := Mission.compileIn_of_stored (m := bareMission j)
    (d := ⟨.memory files, kept⟩) {} false hstored
  refine ⟨c, ?_, ?_⟩
  · show ((bareMission j).compileIn {} false ((bareMission i).compileIn {} false _).2).1 = _
    rw [hfirst, hc]
  · rw [hplan]
    rfl

/-- **Missions are compiled apart from one another exactly if no two of their ids have the same
path.** -/
theorem isolated_iff (ids : Set String) : Isolated ids ↔ Apart ids := by
  refine ⟨fun hisolated i hi j hj hpath => ?_, isolated_of_apart⟩
  obtain ⟨c, hc, hplan⟩ := exists_shared_plan hpath
  have hown := (hisolated .nothing {} [{ mission := bareMission i }] { mission := bareMission j }
    (by simpa using isFor_bareMission hi) (isFor_bareMission hj)).1 c hc
  exact hplan.symm.trans hown

/-- A mission is not always given a plan of its own. -/
theorem not_forall_own_plan :
    ¬ ∀ (calls : List Call) (call : Call) (c : Compiled),
      (call.run (after ⟨.memory {}, {}⟩ calls)).1 = .ok c →
      c.plan.settings.missionId = call.mission.id := by
  intro hall
  obtain ⟨c, hc, hplan⟩ := exists_shared_plan (i := "a/b") (j := "a//b") (by decide)
  have hown : c.plan.settings.missionId = "a//b" := hall _ _ c hc
  rw [hplan] at hown
  exact absurd hown (by decide)

end Compile

end Sortie
