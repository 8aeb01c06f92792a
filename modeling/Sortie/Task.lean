import Sortie.Store.Basic
import Sortie.Archive

/-!
# Tasks

A task is work on files and on the archive, one access after the other. Between two accesses
other tasks may have theirs, so a task is a tree of accesses and not a function on the whole.
-/

namespace Sortie

open Text (Bytes)

/-- What tasks share. -/
structure Depot where
  store : Store
  archive : Archive := {}

inductive Task (α : Type) where
  | done (a : α)
  | read (p : Store.Path) (next : Except Store.Fault (Option Bytes) → Task α)
  | write (p : Store.Path) (data : Bytes) (next : Except Store.Fault Unit → Task α)
  | remove (p : Store.Path) (next : Except Store.Fault Unit → Task α)
  | saveMission (m : Mission) (next : Task α)
  | executionsOf (missionId : String) (next : List Execution → Task α)
  | saveExecution (e : Execution) (next : Task α)

namespace Task

/-- One access. A task that is done makes none. -/
def step : Task α → Depot → Task α × Depot
  | done a, d => (done a, d)
  | read p next, d => (next (d.store.read p), d)
  | write p data next, d =>
    let (result, store) := d.store.write p data
    (next result, { d with store })
  | remove p next, d =>
    let (result, store) := d.store.remove p
    (next result, { d with store })
  | saveMission m next, d => (next, { d with archive := d.archive.saveMission m })
  | executionsOf missionId next, d => (next (d.archive.executionsOf missionId), d)
  | saveExecution e next, d => (next, { d with archive := d.archive.saveExecution e })

/-- All accesses of a task with none of others between them. -/
def run : Task α → Depot → α × Depot
  | done a, d => (a, d)
  | read p next, d => (next (d.store.read p)).run d
  | write p data next, d =>
    let (result, store) := d.store.write p data
    (next result).run { d with store }
  | remove p next, d =>
    let (result, store) := d.store.remove p
    (next result).run { d with store }
  | saveMission m next, d => next.run { d with archive := d.archive.saveMission m }
  | executionsOf missionId next, d => (next (d.archive.executionsOf missionId)).run d
  | saveExecution e next, d => next.run { d with archive := d.archive.saveExecution e }

/-- The result of a task that is done. -/
def result? : Task α → Option α
  | done a => some a
  | _ => none

end Task

namespace Archive

/-- Binds a mission to a new execution with the next rank and keeps that. Without a next rank
nothing is kept. -/
def startExecution (m : Mission) (id : String) (now : Clock.Instant) :
    Task (Except Fault Execution) :=
  .executionsOf m.id fun es =>
    match rankAfter es with
    | .error fault => .done (.error fault)
    | .ok rank =>
      let e : Execution := { mission := m, id, rank, recovery := none, startedAt := now }
      .saveExecution e (.done (.ok e))

end Archive

end Sortie
