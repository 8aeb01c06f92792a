import Sortie.Store.Path

/-!
# Files in memory

A store in memory keeps each file under its path. It may refuse to write at all, or files with
one extension.
-/

namespace Sortie.Store

open Text (Bytes)

inductive Refusal where
  | nothing
  | everything
  | extension (name : String)
  deriving DecidableEq, Repr

structure Memory where
  files : List (Path × Bytes) := []
  refusal : Refusal := .nothing

namespace Memory

def planPath (missionId : String) : Path :=
  ⟨fileName missionId "plan"⟩

def waylistPath (missionId : String) : Path :=
  ⟨fileName missionId "mavlink"⟩

def get? (m : Memory) (p : Path) : Option Bytes :=
  (m.files.find? (·.1 == p)).map (·.2)

def refuses (m : Memory) (p : Path) : Bool :=
  match m.refusal with
  | .nothing => false
  | .everything => true
  | .extension name => p.extension? = some name.toList

/-- Puts a file in the place of the one of that path, or adds it. -/
def put (p : Path) (data : Bytes) : List (Path × Bytes) → List (Path × Bytes)
  | [] => [(p, data)]
  | f :: fs => if f.1 == p then (f.1, data) :: fs else f :: put p data fs

def write (m : Memory) (p : Path) (data : Bytes) : Except Fault Unit × Memory :=
  if m.refuses p then (.error ⟨p, "read-only store"⟩, m)
  else (.ok (), { m with files := put p data m.files })

def remove (m : Memory) (p : Path) : Memory :=
  { m with files := m.files.filter (!·.1 == p) }

def count (m : Memory) : Nat :=
  m.files.length

end Memory

end Sortie.Store
