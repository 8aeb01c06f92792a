import Sortie.Mission.Basic

/-!
# The archive of missions and executions

Missions are kept by id. Executions are kept by their own id, in the order in which these were
first seen, whatever mission they belong to.
-/

namespace Sortie

structure Archive where
  missions : List (String × Mission) := []
  executions : List Execution := []
  deriving Inhabited

namespace Archive

def mission? (a : Archive) (id : String) : Option Mission :=
  a.missions.lookup id

/-- Puts `b` in the place of the first item that is like it, or adds it. -/
def replaceOrAdd {α : Type} (like : α → Bool) (b : α) : List α → List α
  | [] => [b]
  | a :: rest => if like a then b :: rest else a :: replaceOrAdd like b rest

def saveMission (a : Archive) (m : Mission) : Archive :=
  { a with missions := replaceOrAdd (·.1 = m.id) (m.id, m) a.missions }

def saveExecution (a : Archive) (e : Execution) : Archive :=
  { a with executions := replaceOrAdd (·.id = e.id) e a.executions }

/-- The executions of a mission, oldest first. -/
def executionsOf (a : Archive) (missionId : String) : List Execution :=
  a.executions.filter (·.missionId = missionId)

/-- Ranks have 32 bits. -/
def rankLimit : Nat := 4294967296

/-- Why there is no next rank. -/
inductive Fault where
  | overflow
  deriving DecidableEq, Repr

def Fault.message : Fault → String
  | .overflow => "attempt to add with overflow"

/-- One more than the highest rank, and one if there is none. -/
def rankAfter (es : List Execution) : Except Fault Nat :=
  match (es.map (·.rank)).max? with
  | none => .ok 1
  | some rank => if rank + 1 < rankLimit then .ok (rank + 1) else .error .overflow

def nextRank (a : Archive) (missionId : String) : Except Fault Nat :=
  rankAfter (a.executionsOf missionId)

end Archive

end Sortie
