import Sortie.Compile.Basic
import Sortie.Proofs.Store.Kept

/-!
# Outcomes of a compilation

A compilation comes to one of five outcomes, decided in the order of its accesses (`Outcome`):
the plan that is kept is used again; no commands can be made; the waypoint list cannot be written;
the plan cannot be written; or both are.

When the plan cannot be written, the waypoint list is removed again.  That undoes the write only if
there was no waypoint list before: `Mission.compile_failed` says when a compilation that fails leaves
the files in memory as they were, and `not_forall_kept_of_failed` is a waypoint list that is lost.
-/

namespace Sortie

open Text (Bytes)

namespace Compile

variable {m : Mission} {s : CompileSettings} {planPath waylistPath : Store.Path} {archive : Bool}
  {d : Depot}

/-- What a compilation returns and leaves. -/
inductive Outcome (m : Mission) (s : CompileSettings) (planPath waylistPath : Store.Path)
    (archive : Bool) (d : Depot) : Except CompileFault Compiled × Depot → Prop
  | reused {plan : Plan} (hread : stored? (d.store.read planPath) = some plan) :
      Outcome m s planPath waylistPath archive d (reuse m planPath plan, d)
  | unmade {fault : CompileFault} (hread : stored? (d.store.read planPath) = none)
      (hsource : source m s = .error fault) :
      Outcome m s planPath waylistPath archive d (.error fault, d)
  | unlisted {commands : Sequence} {waylist : List Char} {fault : Store.Fault} {store : Store}
      (hread : stored? (d.store.read planPath) = none)
      (hsource : source m s = .ok (commands, waylist))
      (hlist : d.store.write waylistPath (Text.encode waylist) = (.error fault, store)) :
      Outcome m s planPath waylistPath archive d
        (.error (.unableToSave fault), { d with store })
  | unsaved {commands : Sequence} {waylist : List Char} {fault : Store.Fault}
      {store store' : Store} (hread : stored? (d.store.read planPath) = none)
      (hsource : source m s = .ok (commands, waylist))
      (hlist : d.store.write waylistPath (Text.encode waylist) = (.ok (), store))
      (hplan : store.write planPath (build m planPath commands).plan.toBytes
        = (.error fault, store')) :
      Outcome m s planPath waylistPath archive d
        (.error (.unableToSave fault), { d with store := (store'.remove waylistPath).2 })
  | saved {commands : Sequence} {waylist : List Char} {store store' : Store}
      (hread : stored? (d.store.read planPath) = none)
      (hsource : source m s = .ok (commands, waylist))
      (hlist : d.store.write waylistPath (Text.encode waylist) = (.ok (), store))
      (hplan : store.write planPath (build m planPath commands).plan.toBytes = (.ok (), store')) :
      Outcome m s planPath waylistPath archive d
        (.ok (build m planPath commands),
          { store := store'
            archive :=
              if archive then d.archive.saveMission (build m planPath commands).mission
              else d.archive })

/-- **Every compilation comes to one of the outcomes.** -/
theorem outcome_run (m : Mission) (s : CompileSettings) (planPath waylistPath : Store.Path)
    (archive : Bool) (d : Depot) :
    Outcome m s planPath waylistPath archive d
      ((m.compile s planPath waylistPath archive).run d) := by
  unfold Mission.compile
  rw [Task.run]
  cases hread : stored? (d.store.read planPath) with
  | some plan => exact .reused hread
  | none =>
    cases hsource : source m s with
    | error fault => exact .unmade hread hsource
    | ok made =>
      obtain ⟨commands, waylist⟩ := made
      rcases hlist : d.store.write waylistPath (Text.encode waylist) with ⟨listed, store⟩
      cases listed with
      | error fault =>
        simp only [Task.run, hlist]
        exact .unlisted hread hsource hlist
      | ok =>
        rcases hplan : store.write planPath (build m planPath commands).plan.toBytes with
          ⟨planned, store'⟩
        cases planned with
        | error fault =>
          simp only [Task.run, hlist, hplan]
          exact .unsaved hread hsource hlist hplan
        | ok =>
          have hsaved : Outcome m s planPath waylistPath archive d _ :=
            .saved hread hsource hlist hplan
          simp only [Task.run, hlist, hplan]
          cases archive <;> exact hsaved

/-- A stored plan holds commands, so that it can be used again. -/
theorem reuse_of_stored {found : Except Store.Fault (Option Bytes)} {plan : Plan}
    (h : stored? found = some plan) (m : Mission) (path : Store.Path) :
    ∃ commands, plan.commands = .ok commands ∧
      reuse m path plan
        = .ok { mission := { m with isAbsolute := plan.isAbsolute }, path, commands, plan } := by
  have hok : plan.commands.isOk = true := by
    unfold stored? at h
    split at h
    · split at h
      · split at h
        · next hok => exact Option.some.inj h ▸ hok
        · cases h
      · cases h
    · cases h
  unfold reuse
  cases hc : plan.commands with
  | error fault => rw [hc] at hok; cases hok
  | ok commands => exact ⟨commands, rfl, rfl⟩

end Compile

/-! ### Failures with files in memory -/

namespace Store.Memory

/-- A waypoint list of the mission would be written over while the plan is refused. -/
def Overwrites (files : Memory) (missionId : String) : Prop :=
  (files.get? (waylistPath missionId)).isSome = true ∧
    files.refuses (waylistPath missionId) = false ∧ files.refuses (planPath missionId) = true

instance (files : Memory) (missionId : String) : Decidable (files.Overwrites missionId) :=
  inferInstanceAs (Decidable (_ ∧ _ ∧ _))

theorem read_remove_iff (files : Memory) (p : Path) :
    (∀ q, (Store.memory (files.remove p)).read q = (Store.memory files).read q) ↔
      files.get? p = none := by
  constructor
  · intro h
    have hp : (p == p) = true := Path.beq_iff_parts.mpr rfl
    have hnone : (files.remove p).get? p = none := by rw [get?_remove, if_pos hp]
    have hread : (files.remove p).get? p = files.get? p := Except.ok.inj (h p)
    exact hread ▸ hnone
  · intro h q
    rw [(remove_eq_self_iff files p).mpr h]

end Store.Memory

namespace Mission

variable {m : Mission} {s : CompileSettings} {files : Store.Memory} {archive : Bool}
  {kept : Archive} {fault : CompileFault} {d : Depot}

/-- The older waypoint list of a mission is lost if it is written over and the plan refused. -/
def LosesWaylist (m : Mission) (s : CompileSettings) (files : Store.Memory) : Prop :=
  (Compile.source m s).isOk = true ∧ files.Overwrites m.id

instance (m : Mission) (s : CompileSettings) (files : Store.Memory) :
    Decidable (m.LosesWaylist s files) :=
  inferInstanceAs (Decidable (_ ∧ _))

/-- The files that a compilation leaves in memory when it fails. -/
def remaining (m : Mission) (s : CompileSettings) (files : Store.Memory) : Store.Memory :=
  if m.LosesWaylist s files then files.remove (Store.Memory.waylistPath m.id) else files

theorem remaining_of_not_loses (h : ¬ m.LosesWaylist s files) : m.remaining s files = files :=
  if_neg h

theorem remaining_of_error (h : Compile.source m s = .error fault) :
    m.remaining s files = files := by
  refine remaining_of_not_loses fun hlost => ?_
  have hok := hlost.1
  rw [h] at hok
  cases hok

theorem remaining_of_refuses (h : files.refuses (Store.Memory.waylistPath m.id) = true) :
    m.remaining s files = files := by
  refine remaining_of_not_loses fun hlost => ?_
  have haccepted := hlost.2.2.1
  rw [h] at haccepted
  cases haccepted

/-- With the plan refused, the waypoint list is removed, whether or not there was an older one. -/
theorem remaining_of_unsaved (hsource : (Compile.source m s).isOk = true)
    (haccepted : files.refuses (Store.Memory.waylistPath m.id) = false)
    (hrefused : files.refuses (Store.Memory.planPath m.id) = true) :
    m.remaining s files = files.remove (Store.Memory.waylistPath m.id) := by
  unfold remaining
  split
  · rfl
  · next hkept =>
    -- All but the older waypoint list is given, so there is none.
    refine ((Store.Memory.remove_eq_self_iff _ _).mpr ?_).symm
    exact Option.not_isSome_iff_eq_none.mp fun hsome =>
      hkept ⟨hsource, hsome, haccepted, hrefused⟩

/-- A waypoint list that is lost is missed, and nothing else can be. -/
theorem read_remaining_iff (m : Mission) (s : CompileSettings) (files : Store.Memory) :
    (∀ p, (Store.memory (m.remaining s files)).read p = (Store.memory files).read p) ↔
      ¬ m.LosesWaylist s files := by
  by_cases hlost : m.LosesWaylist s files
  · have hsome := hlost.2.1
    unfold remaining
    rw [if_pos hlost, Store.Memory.read_remove_iff]
    constructor
    · intro hnone
      rw [hnone] at hsome
      cases hsome
    · exact fun hkept => absurd hlost hkept
  · rw [remaining_of_not_loses hlost]
    exact ⟨fun _ => hlost, fun _ _ => rfl⟩

/-- The archive is kept, and of the files in memory what remains after a failure. -/
theorem remaining_of_failed
    (h : (m.compile s (Store.Memory.planPath m.id) (Store.Memory.waylistPath m.id) archive).run
      ⟨.memory files, kept⟩ = (.error fault, d)) :
    d.archive = kept ∧ d.store = .memory (m.remaining s files) := by
  have houtcome := Compile.outcome_run m s (Store.Memory.planPath m.id)
    (Store.Memory.waylistPath m.id) archive ⟨.memory files, kept⟩
  rw [h] at houtcome
  generalize hr : ((.error fault, d) : Except CompileFault Compiled × Depot) = r at houtcome
  cases houtcome with
  | reused hread =>
    obtain ⟨commands, -, hreuse⟩ := Compile.reuse_of_stored hread m (Store.Memory.planPath m.id)
    rw [hreuse] at hr
    cases (Prod.mk.inj hr).1
  | unmade hread hsource =>
    obtain rfl := (Prod.mk.inj hr).2
    exact ⟨rfl, by rw [remaining_of_error hsource]⟩
  | unlisted hread hsource hlist =>
    obtain rfl := (Prod.mk.inj hr).2
    obtain ⟨hrefused, rfl⟩ := Store.Memory.write_eq_error hlist
    exact ⟨rfl, by rw [remaining_of_refuses hrefused]⟩
  | unsaved hread hsource hlist hplan =>
    obtain rfl := (Prod.mk.inj hr).2
    obtain ⟨haccepted, rfl⟩ := Store.Memory.write_eq_ok hlist
    obtain ⟨hrefused, rfl⟩ := Store.Memory.write_eq_error hplan
    rw [Store.Memory.refuses_write] at hrefused
    have hmade : (Compile.source m s).isOk = true := by
      rw [hsource]
      rfl
    rw [remaining_of_unsaved hmade haccepted hrefused]
    exact ⟨rfl, congrArg Store.memory (Store.Memory.remove_write files _ _)⟩
  | saved => cases (Prod.mk.inj hr).1

/-- **What a compilation that fails leaves.** -/
theorem compile_failed
    (h : (m.compile s (Store.Memory.planPath m.id) (Store.Memory.waylistPath m.id) archive).run
      ⟨.memory files, kept⟩ = (.error fault, d)) :
    d.archive = kept ∧
      ((∀ p, d.store.read p = (Store.memory files).read p) ↔ ¬ m.LosesWaylist s files) ∧
      d.store = .memory (if m.LosesWaylist s files then
        files.remove (Store.Memory.waylistPath m.id) else files) := by
  obtain ⟨harchive, hstore⟩ := remaining_of_failed h
  refine ⟨harchive, ?_, hstore⟩
  rw [hstore]
  exact m.read_remaining_iff s files

end Mission

/-! ### A waypoint list that is lost -/

/-- A mission whose commands are to be made anew. -/
def plainMission : Mission where
  id := "field"
  name := "field"
  kind := .standard

/-- A store that takes waypoint lists but no plans, with a waypoint list of the mission. -/
def halfOpen : Store.Memory where
  files := [(Store.Memory.waylistPath "field", [0])]
  refusal := .extension "plan"

theorem compile_failed_halfOpen :
    ∃ fault d, (plainMission.compile {} (Store.Memory.planPath "field")
        (Store.Memory.waylistPath "field") false).run ⟨.memory halfOpen, {}⟩ = (.error fault, d) ∧
      d.store = .memory (halfOpen.remove (Store.Memory.waylistPath "field")) := by
  have hloses : plainMission.LosesWaylist {} halfOpen := by decide
  have hfailed : (plainMission.compile {} (Store.Memory.planPath "field")
      (Store.Memory.waylistPath "field") false).run ⟨.memory halfOpen, {}⟩ = (.error _, _) := rfl
  have h := (Mission.compile_failed hfailed).2.2
  rw [if_pos hloses] at h
  exact ⟨_, _, hfailed, h⟩

/-- A compilation that fails can lose a file. -/
theorem not_forall_kept_of_failed :
    ¬ ∀ (m : Mission) (s : CompileSettings) (files : Store.Memory) (archive : Bool)
      (kept : Archive) (fault : CompileFault) (d : Depot),
      (m.compile s (Store.Memory.planPath m.id) (Store.Memory.waylistPath m.id) archive).run
        ⟨.memory files, kept⟩ = (.error fault, d) →
      ∀ p, d.store.read p = (Store.memory files).read p := by
  intro hall
  have h := hall plainMission {} halfOpen false {} _ _ rfl (Store.Memory.waylistPath "field")
  have hlost : (Except.ok none : Except Store.Fault (Option Bytes)) = .ok (some [0]) := h
  cases hlost

end Sortie
