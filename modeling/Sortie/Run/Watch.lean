import Sortie.Mission.Basic

/-!
# The watch on executions

Which execution is being activated or is active, for those who need to know no more of a run.
-/

namespace Sortie.Run

inductive Watch where
  | none
  | activating (e : Execution)
  | active (e : Execution)
  deriving BEq, DecidableEq, Repr, Inhabited

namespace Watch

def execution? : Watch → Option Execution
  | none => .none
  | activating e | active e => some e

def active? : Watch → Option Execution
  | active e => some e
  | none | activating _ => .none

def hasActive (w : Watch) : Bool :=
  w.active?.isSome

/-- The active mission takes photos one by one. -/
def hasActiveLapse (w : Watch) : Bool :=
  w.active?.any (·.mission.capture.mode.isLapse)

def activatingId? : Watch → Option String
  | activating e => some e.missionId
  | none | active _ => .none

/-- Another version of the active execution takes its place; nothing happens if it is the same
or not of the active execution. -/
def refresh? (w : Watch) (e : Execution) : Option Watch :=
  match w with
  | active current => if current.id = e.id && current != e then some (active e) else .none
  | none | activating _ => .none

end Watch

end Sortie.Run
