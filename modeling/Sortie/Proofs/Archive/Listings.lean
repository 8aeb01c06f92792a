import Mathlib
import Sortie.Proofs.Archive.Starts

/-!
# What an archive lists

Executions are kept by id, each at the place where its id came first, in the version saved last.
So what an archive holds is a function of what has been saved: the ids in the order in which they
came (`ids_saveAll`), each with its last version (`executions_saveAll`).  A mission lists those of
them that are its own by then, although an earlier version may have been another mission's.

`Filled` are the archives that calls lead to, with the versions saved on the way, and
`Filled.lists` says what they list and which rank a start gives next.
-/

namespace Sortie.Archive

/-! ### Versions of executions -/

theorem find?_replaceOrAdd (x : Execution) (l : List Execution) (id : String) :
    (replaceOrAdd (·.id = x.id) x l).find? (·.id = id)
      = if x.id = id then some x else l.find? (·.id = id) := by
  induction l with
  | nil => by_cases hx : x.id = id <;> simp [replaceOrAdd, hx]
  | cons y l ih =>
    unfold replaceOrAdd
    by_cases hy : y.id = x.id
    · by_cases hx : x.id = id <;> simp [hy, hx]
    · by_cases hx : x.id = id
      · have hne : y.id ≠ id := fun h => hy (h.trans hx.symm)
        simpa [hy, hx, hne] using ih
      · by_cases hid : y.id = id
        · subst hid
          simp [hy, hx]
        · simpa [hy, hx, hid] using ih

theorem ids_replaceOrAdd (x : Execution) (l : List Execution) :
    (replaceOrAdd (·.id = x.id) x l).map (·.id)
      = if x.id ∈ l.map (·.id) then l.map (·.id) else l.map (·.id) ++ [x.id] := by
  induction l with
  | nil => rfl
  | cons y l ih =>
    unfold replaceOrAdd
    by_cases hy : y.id = x.id
    · simp [hy]
    · have hne : x.id ≠ y.id := Ne.symm hy
      simp only [hy, decide_false, Bool.false_eq_true, if_false, List.map_cons, ih, List.mem_cons,
        hne, false_or]
      split <;> rfl

/-- An execution is kept once. -/
theorem nodup_replaceOrAdd (x : Execution) {l : List Execution} (h : (l.map (·.id)).Nodup) :
    ((replaceOrAdd (·.id = x.id) x l).map (·.id)).Nodup := by
  rw [ids_replaceOrAdd]
  split
  · exact h
  · next hx => exact List.nodup_append.mpr ⟨h, by simp, by simpa using hx⟩

/-- The execution of an id, if it is kept. -/
def execution? (a : Archive) (id : String) : Option Execution :=
  a.executions.find? (·.id = id)

/-- No two executions are kept under the same id. -/
def IsKeyed (a : Archive) : Prop :=
  (a.executions.map (·.id)).Nodup

def saveAll (a : Archive) (xs : List Execution) : Archive :=
  xs.foldl saveExecution a

theorem saveAll_concat (a : Archive) (xs : List Execution) (x : Execution) :
    a.saveAll (xs ++ [x]) = (a.saveAll xs).saveExecution x := by
  simp [saveAll, List.foldl_append]

/-- **Of several versions of an execution the last one is kept.** -/
theorem execution?_saveAll (a : Archive) (xs : List Execution) (id : String) :
    (a.saveAll xs).execution? id = (xs.filter (·.id = id)).getLast?.or (a.execution? id) := by
  induction xs generalizing a with
  | nil => rfl
  | cons x xs ih =>
    have hx : (a.saveExecution x).execution? id = if x.id = id then some x else a.execution? id :=
      find?_replaceOrAdd x a.executions id
    refine (ih (a.saveExecution x)).trans ?_
    rw [hx, List.filter_cons]
    by_cases hid : x.id = id
    · simp only [hid, if_true, decide_true, List.getLast?_cons]
      cases (xs.filter (·.id = id)).getLast? <;> rfl
    · simp only [hid, if_false, decide_false, Bool.false_eq_true]

theorem IsKeyed.saveAll {a : Archive} (h : a.IsKeyed) (xs : List Execution) :
    (a.saveAll xs).IsKeyed := by
  induction xs generalizing a with
  | nil => exact h
  | cons x xs ih => exact ih (nodup_replaceOrAdd x h)

variable {saved : List Execution} {a : Archive} {e : Execution}

/-- The ids of the executions saved, each where it came first. -/
def firstIds (saved : List Execution) : List String :=
  (saved.map (·.id)).eraseDups

/-- The version of an execution that was saved last. -/
def latest? (saved : List Execution) (id : String) : Option Execution :=
  (saved.filter (·.id = id)).getLast?

/-- The last versions of the executions that are of a mission by then. -/
def listed (saved : List Execution) (missionId : String) : List Execution :=
  ((firstIds saved).filterMap (latest? saved)).filter (·.missionId = missionId)

theorem ids_saveAll (saved : List Execution) :
    (saveAll {} saved).executions.map (·.id) = firstIds saved := by
  induction saved using List.reverseRecOn with
  | nil => rfl
  | append_singleton saved e ih =>
    rw [saveAll_concat, firstIds, List.map_append, List.eraseDups_append]
    refine (ids_replaceOrAdd e _).trans ?_
    rw [ih, firstIds]
    by_cases he : e.id ∈ saved.map (·.id)
    · have hnone : [e.id].removeAll (saved.map (·.id)) = [] := by
        simpa [List.removeAll] using he
      rw [if_pos (List.mem_eraseDups.mpr he), List.map_singleton, hnone]
      exact (List.append_nil _).symm
    · have hkept : [e.id].removeAll (saved.map (·.id)) = [e.id] := by
        simpa [List.removeAll] using he
      rw [if_neg fun h => he (List.mem_eraseDups.mp h), List.map_singleton, hkept]
      rfl

/-- Executions of different ids are told by their ids. -/
theorem filterMap_find?_ids {l : List Execution} (h : (l.map (·.id)).Nodup) :
    (l.map (·.id)).filterMap (fun id => l.find? (·.id = id)) = l := by
  induction l with
  | nil => rfl
  | cons e l ih =>
    obtain ⟨hfresh, hrest⟩ := List.nodup_cons.mp h
    have hself : (e :: l).find? (·.id = e.id) = some e := by simp
    have hother : ∀ id ∈ l.map (·.id),
        (e :: l).find? (·.id = id) = l.find? (·.id = id) := by
      intro id hid
      have hne : e.id ≠ id := by
        rintro rfl
        exact hfresh hid
      simp [hne]
    rw [List.map_cons, List.filterMap_cons, hself, List.filterMap_congr hother]
    exact congrArg (e :: ·) (ih hrest)

/-- **What was saved is kept in the order of the first versions, as it is in the last ones.** -/
theorem executions_saveAll (saved : List Execution) :
    (saveAll {} saved).executions = (firstIds saved).filterMap (latest? saved) := by
  have hkeyed : (saveAll {} saved).IsKeyed := IsKeyed.saveAll (a := {}) List.nodup_nil saved
  have hlatest : (saveAll {} saved).execution? = latest? saved := by
    funext id
    rw [execution?_saveAll]
    exact Option.or_none
  calc (saveAll {} saved).executions
      = ((saveAll {} saved).executions.map (·.id)).filterMap (saveAll {} saved).execution? :=
        (filterMap_find?_ids hkeyed).symm
    _ = (firstIds saved).filterMap (latest? saved) := by rw [ids_saveAll, hlatest]

/-! ### Calls -/

theorem topRank_succ_lt {es : List Execution} (h : ∀ e ∈ es, e.rank + 1 < rankLimit) :
    topRank es + 1 < rankLimit := by
  unfold topRank
  cases hmax : (es.map (·.rank)).max? with
  | none => decide
  | some rank =>
    obtain ⟨e, he, rfl⟩ := List.mem_map.mp (List.max?_mem hmax)
    exact h e he

theorem Start.run_task (c : Start) (store : Store) (a : Archive) :
    c.task.run ⟨store, a⟩ =
      match rankAfter (a.executionsOf c.mission.id) with
      | .error fault => (.error fault, ⟨store, a⟩)
      | .ok rank => (.ok (c.record rank), ⟨store, a.saveExecution (c.record rank)⟩) := by
  show (c.keeping (rankAfter (a.executionsOf c.mission.id))).run ⟨store, a⟩ = _
  cases rankAfter (a.executionsOf c.mission.id) <;> rfl

/-- The archives that calls lead to, with the versions of executions saved on the way. -/
inductive Filled : List Execution → Archive → Prop
  | new : Filled [] {}
  | mission {saved : List Execution} {a : Archive} (past : Filled saved a) (m : Mission) :
      Filled saved (a.saveMission m)
  | execution {saved : List Execution} {a : Archive} (past : Filled saved a) (e : Execution) :
      Filled (saved ++ [e]) (a.saveExecution e)
  | start {saved : List Execution} {a : Archive} {e : Execution} {store : Store} {d : Depot}
      (past : Filled saved a) (c : Start) (h : c.task.run ⟨store, a⟩ = (.ok e, d)) :
      Filled (saved ++ [e]) d.archive

theorem archive_of_run {c : Start} {store : Store} {d : Depot}
    (h : c.task.run ⟨store, a⟩ = (.ok e, d)) : d.archive = a.saveExecution e := by
  rw [c.run_task] at h
  split at h
  · cases (Prod.mk.inj h).1
  · obtain ⟨he, rfl⟩ := Prod.mk.inj h
    rw [Except.ok.inj he]

/-- Of the calls only those that save executions count. -/
theorem Filled.executions_eq (h : Filled saved a) :
    a.executions = (saveAll {} saved).executions := by
  have hsave {saved : List Execution} {a : Archive} (e : Execution)
      (ih : a.executions = (saveAll {} saved).executions) :
      (a.saveExecution e).executions = (saveAll {} (saved ++ [e])).executions := by
    rw [saveAll_concat, saveExecution, saveExecution, ih]
  induction h with
  | new => rfl
  | mission _ _ ih => exact ih
  | execution _ e ih => exact hsave e ih
  | start _ _ hrun ih =>
    rw [archive_of_run hrun]
    exact hsave _ ih

/-- **What an archive lists, and what a start gives back.**  No execution is kept twice; a mission
lists the last versions of its executions in the order in which these were first saved; a start
binds its mission to the rank above the highest one listed; and missions that are saved change no
list. -/
theorem Filled.lists (h : Filled saved a) :
    (a.executions.map (·.id)).Nodup ∧
    (∀ missionId : String, a.executionsOf missionId = listed saved missionId) ∧
    (∀ (c : Start) (store : Store), (∀ e ∈ a.executions, e.rank + 1 < rankLimit) →
      ∃ e, c.task.run ⟨store, a⟩ = (.ok e, ⟨store, a.saveExecution e⟩) ∧
        e.mission = c.mission ∧ e.id = c.id ∧
        e.rank = topRank (listed saved c.mission.id) + 1) ∧
    ∀ (m : Mission) (missionId : String),
      (a.saveMission m).executionsOf missionId = a.executionsOf missionId := by
  have hlisted (missionId : String) : a.executionsOf missionId = listed saved missionId := by
    rw [executionsOf, h.executions_eq, executions_saveAll]
    rfl
  refine ⟨?_, hlisted, fun c store hranks => ?_, fun m missionId => rfl⟩
  · rw [h.executions_eq]
    exact IsKeyed.saveAll (a := {}) List.nodup_nil saved
  · have hroom : topRank (a.executionsOf c.mission.id) + 1 < rankLimit :=
      topRank_succ_lt fun e he => hranks e (List.mem_filter.mp he).1
    refine ⟨c.record (topRank (a.executionsOf c.mission.id) + 1), ?_, rfl, rfl, ?_⟩
    · rw [c.run_task, rankAfter_eq, if_pos hroom]
    · rw [← hlisted]
      rfl

/-- The first execution of `twoStarts`, by now one of another mission. -/
def movedRecord : Execution :=
  { (twoStarts true).record 1 with
    mission := { id := "orchard", name := "orchard", kind := .standard } }

/-- A further start of the mission of `twoStarts`. -/
def thirdStart : Start :=
  { twoStarts true with id := "third" }

/-- One execution goes to another mission after the next one has been started. -/
theorem Filled.lists_movedRecord :
    ∃ a : Archive,
      Filled [(twoStarts true).record 1, (twoStarts false).record 2, movedRecord] a ∧
      a.executionsOf "field" = [(twoStarts false).record 2] ∧
      a.executionsOf "orchard" = [movedRecord] ∧
      ∃ e d, thirdStart.task.run ⟨.memory {}, a⟩ = (.ok e, d) ∧ e.rank = 3 := by
  let once : Archive := saveExecution {} ((twoStarts true).record 1)
  have hrun : (twoStarts true).task.run ⟨.memory {}, {}⟩
    = (.ok ((twoStarts true).record 1), ⟨.memory {}, once⟩) := rfl
  have hrun' : (twoStarts false).task.run ⟨.memory {}, once⟩
    = (.ok ((twoStarts false).record 2), _) := rfl
  have hfirst := Filled.new.start (twoStarts true) hrun
  have hsecond := hfirst.start (twoStarts false) hrun'
  have hmoved := hsecond.execution movedRecord
  obtain ⟨-, hlists, hstart, -⟩ := Filled.lists hmoved
  obtain ⟨e, hrun, -, -, hrank⟩ := hstart thirdStart (.memory {}) (by decide)
  exact ⟨_, hmoved, hlists "field", hlists "orchard", e, _, hrun, hrank⟩

end Sortie.Archive
