import Sortie.Text.Utf8

/-!
# Paths

A path is a text, and two paths are the same if their parts are: slashes may be repeated, and a
dot between them stands for nothing unless the path starts with it.
-/

namespace Sortie.Store

/-- The pieces of a text between slashes. -/
def pieces : List Char → List (List Char)
  | [] => [[]]
  | c :: cs =>
    if c = '/' then [] :: pieces cs
    else match pieces cs with
      | [] => [[c]]
      | p :: ps => (c :: p) :: ps

structure Path where
  text : List Char
  deriving Repr, Inhabited

namespace Path

def ofString (s : String) : Path :=
  ⟨s.toList⟩

def toString (p : Path) : String :=
  String.ofList p.text

def isAbsolute (p : Path) : Bool :=
  p.text.head? = some '/'

/-- A piece that stands for nothing. -/
def isVoid (piece : List Char) : Bool :=
  piece.isEmpty || piece = ['.']

/-- What a path is compared by. An absolute path starts with an empty part. -/
def parts (p : Path) : List (List Char) :=
  if p.isAbsolute then [] :: (pieces p.text).filter (!isVoid ·)
  else match pieces p.text with
    | [] => []
    | first :: rest =>
      (if first.isEmpty then [] else [first]) ++ rest.filter (!isVoid ·)

instance : BEq Path := ⟨fun p q => p.parts == q.parts⟩

/-- A path below another one, unless it is absolute. -/
def join (folder : Path) (name : List Char) : Path :=
  if name.head? = some '/' then ⟨name⟩
  else if folder.text.isEmpty ∨ folder.text.getLast? = some '/' then ⟨folder.text ++ name⟩
  else ⟨folder.text ++ '/' :: name⟩

/-- A text without the void pieces at its end. -/
def dropVoid : List (List Char) → List (List Char)
  | [] => []
  | [p] => [p]
  | p :: ps =>
    match dropVoid ps with
    | [q] => if isVoid q then [p] else [p, q]
    | qs => p :: qs

/-- The path that holds the last part, as far as it was written. -/
def parent (p : Path) : Path :=
  let kept := dropVoid (dropVoid (pieces p.text)).dropLast
  if p.isAbsolute ∧ kept.length ≤ 1 then ⟨['/']⟩
  else ⟨List.intercalate ['/'] kept⟩

/-- The path and all above it, as long as there is a text. -/
def lineage : Nat → Path → List Path
  | 0, _ => []
  | bound + 1, p =>
    if p.text.isEmpty then []
    else if p.text = ['/'] then [p]
    else p :: lineage bound p.parent

/-- What follows the last dot of the last part, if something comes before that dot. -/
def extension? (p : Path) : Option (List Char) :=
  match p.parts.getLast? with
  | none => none
  | some name =>
    if name = ['.', '.'] ∨ ¬ '.' ∈ name then none
    else
      let extension := (name.reverse.takeWhile (· ≠ '.')).reverse
      if extension.length + 1 = name.length then none else some extension

end Path

/-- Why a file cannot be read or written. -/
structure Fault where
  path : Path
  message : String
  deriving Repr

def Fault.text (f : Fault) : String :=
  "I/O error on " ++ f.path.toString ++ ": " ++ f.message

/-- The name of a file of a mission. -/
def fileName (missionId ending : String) : List Char :=
  missionId.toList ++ '.' :: ending.toList

end Sortie.Store
