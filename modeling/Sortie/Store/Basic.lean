import Sortie.Store.Memory
import Sortie.Store.Directory

/-!
# Stores

A store keeps the files of missions, in memory or in folders. Each mission has two: its plan and
its waypoint list.
-/

namespace Sortie

open Text (Bytes)

inductive Store where
  | memory (m : Store.Memory)
  | directory (d : Store.Directory)

namespace Store

def planPath : Store → String → Path
  | memory _, missionId => Memory.planPath missionId
  | directory d, missionId => d.planPath missionId

def waylistPath : Store → String → Path
  | memory _, missionId => Memory.waylistPath missionId
  | directory d, missionId => d.waylistPath missionId

/-- The content of a file, if there is one. -/
def read : Store → Path → Except Fault (Option Bytes)
  | memory m, p => .ok (m.get? p)
  | directory d, p => d.read p

def write : Store → Path → Bytes → Except Fault Unit × Store
  | memory m, p, data => let (r, m) := m.write p data; (r, memory m)
  | directory d, p, data => let (r, d) := d.write p data; (r, directory d)

def remove : Store → Path → Except Fault Unit × Store
  | memory m, p => (.ok (), memory (m.remove p))
  | directory d, p => let (r, d) := d.remove p; (r, directory d)

def exists? (s : Store) (p : Path) : Bool :=
  match s.read p with
  | .ok (some _) => true
  | _ => false

end Store

end Sortie
