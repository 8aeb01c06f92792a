import Sortie.Store.Path

/-!
# Files in folders

A tree of folders and files, with the ways in which looking up a path can fail. Paths that are
not absolute start at the folder `home`.
-/

namespace Sortie.Store

open Text (Bytes)

/-- The names from the top down to a folder or file. -/
abbrev Location := List (List Char)

inductive PathFault where
  | notFound
  | exists
  | notDirectory
  | isDirectory
  | nameTooLong
  | nullByte
  deriving DecidableEq, Repr

def PathFault.message : PathFault → String
  | .notFound => "No such file or directory (os error 2)"
  | .exists => "File exists (os error 17)"
  | .notDirectory => "Not a directory (os error 20)"
  | .isDirectory => "Is a directory (os error 21)"
  | .nameTooLong => "File name too long (os error 36)"
  | .nullByte => "file name contained an unexpected NUL byte"

structure Directory where
  root : Path
  planEnding : String
  waylistEnding : String
  folders : List Location
  files : List (Location × Bytes)

/-- What a path leads to. A missing one has its folder. -/
inductive Target where
  | folder (at_ : Location)
  | file (at_ : Location) (data : Bytes)
  | missing (at_ : Location)

namespace Directory

def home : Location := ["home".toList]

def empty (root : Path) (planEnding waylistEnding : String) : Directory :=
  { root, planEnding, waylistEnding, folders := [[], home], files := [] }

def planPath (d : Directory) (missionId : String) : Path :=
  d.root.join (fileName missionId d.planEnding)

def waylistPath (d : Directory) (missionId : String) : Path :=
  d.root.join (fileName missionId d.waylistEnding)

/-- A name has at most so many bytes. -/
def maxName : Nat := 255

/-- A path has at most so many bytes. -/
def maxPath : Nat := 4095

def enter (d : Directory) (at_ : Location) (name : List Char) : Except PathFault Target :=
  if maxName < (Text.encode name).length then .error .nameTooLong
  else
    let inside := at_ ++ [name]
    if inside ∈ d.folders then .ok (.folder inside)
    else match d.files.lookup inside with
      | some data => .ok (.file inside data)
      | none => .ok (.missing inside)

/-- Takes steps from a folder. Behind a file there is nothing, not even the file itself. -/
def follow (d : Directory) : Target → List (List Char) → Except PathFault Target
  | t, [] => .ok t
  | .file .., _ :: _ => .error .notDirectory
  | .missing _, _ :: _ => .error .notFound
  | .folder at_, p :: ps =>
    if p = ['.'] then d.follow (.folder at_) ps
    else if p = ['.', '.'] then d.follow (.folder at_.dropLast) ps
    else do d.follow (← d.enter at_ p) ps

/-- The names and dots of a path, each a step. -/
def steps (p : Path) : List (List Char) :=
  (pieces p.text).filter (!·.isEmpty)

/-- Takes steps of a path from where it starts. The path as a whole must be within its limits. -/
def walk (d : Directory) (p : Path) (steps : List (List Char)) : Except PathFault Target :=
  if Char.ofNat 0 ∈ p.text then .error .nullByte
  else if p.text.isEmpty then .error .notFound
  else if maxPath < (Text.encode p.text).length then .error .nameTooLong
  else d.follow (.folder (if p.isAbsolute then [] else home)) steps

/-- A slash at the end of a path asks for a folder. -/
def asksFolder (p : Path) : Bool :=
  p.text.getLast? = some '/'

def resolve (d : Directory) (p : Path) : Except PathFault Target := do
  match ← d.walk p (steps p) with
  | .file at_ data => if asksFolder p then throw .notDirectory else return .file at_ data
  | t => return t

def isFolder (d : Directory) (p : Path) : Bool :=
  match d.resolve p with
  | .ok (.folder _) => true
  | _ => false

def makeFolder (d : Directory) (p : Path) : Except PathFault Unit × Directory :=
  match d.walk p (steps p) with
  | .error e => (.error e, d)
  | .ok (.missing at_) => (.ok (), { d with folders := d.folders ++ [at_] })
  | .ok _ => (.error .exists, d)

/-- A folder that is there already is as good as one made now. -/
def settled (p : Path) : Except PathFault Unit × Directory → Except PathFault Unit × Directory
  | (.error .exists, d) => (if d.isFolder p then .ok () else .error .exists, d)
  | r => r

/-- Makes the first of the folders, given with all above it. -/
def makeFolders (d : Directory) : List Path → Except PathFault Unit × Directory
  | [] => (.ok (), d)
  | p :: above =>
    match d.makeFolder p with
    | (.error .notFound, d) =>
      match d.makeFolders above with
      | (.ok (), d) => settled p (d.makeFolder p)
      | (.error e, d) => (.error e, d)
    | r => settled p r

def read (d : Directory) (p : Path) : Except Fault (Option Bytes) :=
  match d.resolve p with
  | .ok (.file _ data) => .ok (some data)
  | .ok (.missing _) | .error .notFound => .ok none
  | .ok (.folder _) => .error ⟨p, PathFault.isDirectory.message⟩
  | .error e => .error ⟨p, e.message⟩

/-- Where a new or old file is to be. A path that asks for a folder is refused as soon as the
folder above it is found, whatever its last name leads to. -/
def resolveNew (d : Directory) (p : Path) : Except PathFault Target := do
  if asksFolder p then
    match ← d.walk p (steps p).dropLast with
    | .folder _ => throw .isDirectory
    | .file .. => throw .notDirectory
    | .missing _ => throw .notFound
  else d.resolve p

def place (d : Directory) (p : Path) (data : Bytes) : Except PathFault Unit × Directory :=
  match d.resolveNew p with
  | .ok (.file at_ _) =>
    (.ok (), { d with files := d.files.map fun f => if f.1 = at_ then (at_, data) else f })
  | .ok (.missing at_) => (.ok (), { d with files := d.files ++ [(at_, data)] })
  | .ok (.folder _) => (.error .isDirectory, d)
  | .error e => (.error e, d)

/-- Writes a file after making the folders above it. -/
def write (d : Directory) (p : Path) (data : Bytes) : Except Fault Unit × Directory :=
  match d.makeFolders (p.parent.lineage (p.text.length + 1)) with
  | (.error e, d) => (.error ⟨p.parent, e.message⟩, d)
  | (.ok (), d) =>
    let (result, d) := d.place p data
    (result.mapError fun e => ⟨p, e.message⟩, d)

/-- Removes a file; one that is missing needs no removal. -/
def remove (d : Directory) (p : Path) : Except Fault Unit × Directory :=
  match d.resolve p with
  | .ok (.file at_ _) => (.ok (), { d with files := d.files.filter (·.1 ≠ at_) })
  | .ok (.missing _) | .error .notFound => (.ok (), d)
  | .ok (.folder _) => (.error ⟨p, PathFault.isDirectory.message⟩, d)
  | .error e => (.error ⟨p, e.message⟩, d)

end Directory

end Sortie.Store
