import Sortie.Compile.Generate
import Sortie.Command.Waylist
import Sortie.Plan.Json
import Sortie.Task

/-!
# Compiling missions

A mission is compiled once: the plan kept for it is used again as long as it can be read. A new
plan comes from the imported waypoint list of the mission, or else from its waypoints. It is
kept together with a waypoint list.
-/

namespace Sortie

open Text (Bytes)

@[ext]
structure Compiled where
  mission : Mission
  path : Store.Path
  commands : Sequence
  plan : Plan

inductive CompileFault where
  | unableToSave (fault : Store.Fault)
  | generationProhibited (kind : MissionKind)
  | malformedImport (fault : CommandFault)
  | invalidPlan (fault : CommandFault)

namespace CompileFault

def kindName : MissionKind → String
  | .standard => "Standard"
  | .imported => "Imported"
  | .survey => "Survey"

def message : CompileFault → String
  | unableToSave fault => "Unable to save plan locally: " ++ fault.text
  | generationProhibited kind =>
    "MAVLink generation prohibited for " ++ kindName kind ++ " missions"
  | malformedImport fault => "Malformed imported command file: " ++ fault.message
  | invalidPlan fault => "Invalid plan artifact: " ++ fault.message

end CompileFault

namespace Compile

/-- The plan in a file, if its items are commands. -/
def stored? : Except Store.Fault (Option Bytes) → Option Plan
  | .ok (some bytes) =>
    match Plan.ofBytes bytes with
    | .ok plan => if plan.commands.isOk then some plan else none
    | .error _ => none
  | _ => none

/-- The commands of a mission without a plan, and its waypoint list. -/
def source (m : Mission) (s : CompileSettings) : Except CompileFault (Sequence × List Char) :=
  match m.imported with
  | some text =>
    match Waylist.read text.toList with
    | .ok commands => .ok (commands, text.toList)
    | .error fault => .error (.malformedImport fault)
  | none =>
    if m.kind.canGenerate then
      let commands := m.generate s
      .ok (commands, Waylist.write commands)
    else .error (.generationProhibited m.kind)

/-- A stored plan decides the frame of the mission. -/
def reuse (m : Mission) (path : Store.Path) (plan : Plan) : Except CompileFault Compiled :=
  match plan.commands with
  | .ok commands =>
    .ok { mission := { m with isAbsolute := plan.isAbsolute }, path, commands, plan }
  | .error fault => .error (.invalidPlan fault)

/-- The commands of a new plan decide the frame of the mission. -/
def build (m : Mission) (path : Store.Path) (commands : Sequence) : Compiled :=
  let m := { m with isAbsolute := decide (Sequence.frame? commands = some .absolute) }
  { mission := m, path, commands, plan := Plan.ofMission m commands }

end Compile

open Compile in
/-- Compiles a mission with the files at two paths. The waypoint list is written first and
removed again if the plan cannot be written. With `archive` the mission is kept there too. -/
def Mission.compile (m : Mission) (s : CompileSettings) (planPath waylistPath : Store.Path)
    (archive : Bool) : Task (Except CompileFault Compiled) :=
  .read planPath fun found =>
    match stored? found with
    | some plan => .done (reuse m planPath plan)
    | none =>
      match source m s with
      | .error fault => .done (.error fault)
      | .ok (commands, waylist) =>
        let compiled := build m planPath commands
        .write waylistPath (Text.encode waylist) fun
          | .error fault => .done (.error (.unableToSave fault))
          | .ok () => .write planPath compiled.plan.toBytes fun
            | .error fault => .remove waylistPath fun _ => .done (.error (.unableToSave fault))
            | .ok () =>
              if archive then .saveMission compiled.mission (.done (.ok compiled))
              else .done (.ok compiled)

end Sortie
