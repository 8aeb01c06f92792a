import Sortie.Json.Token
import Sortie.Clock.Instant

/-!
# Reading values of an expected shape

A shape reads one value in a single pass, so the first thing wrong with a text decides the
fault. What it returns is in normal form: the fields of a record in their declared order, with
those that may be left out filled in.
-/

namespace Sortie.Json

open Text (Bytes)

/-- Reads a value with at most so many levels of brackets. -/
abbrev Shape := Nat → Reader Json

/-- Behind an opening bracket the shape has one level less. -/
def enter (depth : Nat) (inside : Nat → Reader α) : Reader α :=
  match depth with
  | 0 => throw .malformed
  | depth + 1 => do
    drop
    inside depth

/-- A value that cannot be of the expected shape. One that is well formed as far as it is
looked at is mismatched: all of a word, number or text, and the bracket of a list or object. -/
def refuse : Reader α := do
  let b ← peek
  if b = ascii '[' ∨ b = ascii '{' then throw .mismatched
  else
    let _ ← value 0
    throw .mismatched

def check (ok : Bool) (j : Json) : Reader Json :=
  if ok then return j else throw .mismatched

/-- A number of any kind, or nothing. -/
def anyNumber : Reader Json := do
  let b ← peek
  if b = ascii '-' ∨ (digit? b).isSome then readNumber else refuse

namespace Shape

def float : Shape := fun _ => do
  match (← anyNumber).float? with
  | some x => return .number x
  | none => throw .mismatched

/-- A whole number of at most `bound`. -/
def upTo (bound : Nat) : Shape := fun _ => do
  match (← anyNumber).nat? with
  | some n => check (n ≤ bound) (.int n)
  | none => throw .mismatched

def word8 : Shape := upTo 255

def word16 : Shape := upTo 65535

def word32 : Shape := upTo 4294967295

def word64 : Shape := upTo 18446744073709551615

def bool : Shape := fun _ => do
  let b ← peek
  if b = ascii 't' ∨ b = ascii 'f' then value 0 else refuse

def text : Shape := fun _ => do
  if (← peek) = ascii '"' then value 0 else refuse

def instant : Shape := fun depth => do
  match ← text depth with
  | .text s => check (Clock.Instant.ofText? s.toList).isSome (.text s)
  | _ => throw .mismatched

/-- Either the shape or nothing. -/
def optional (shape : Shape) : Shape := fun depth => do
  if (← peek) = ascii 'n' then value 0 else shape depth

def list (shape : Shape) : Shape := fun depth => do
  if (← peek) = ascii '[' then
    enter depth fun depth => do return .list (← items (shape depth) (← itemBound) true)
  else refuse

/-- The bracket that ends a list of a known length. -/
def closeList : Reader Unit := do
  if (← peek) = ascii ']' then drop else throw .malformed

/-- Items of given shapes in their order. If the list ends early, the items still missing are
those in `rest`, unless one of them cannot be left out. -/
def sequence (depth : Nat) : Bool → List (Shape × Option Json) → Reader (List Json)
  | _, [] => do
    closeList
    return []
  | first, (shape, absent) :: rest => do
    if ← moreItems first then
      let j ← shape depth
      return j :: (← sequence depth false rest)
    else
      match ((shape, absent) :: rest).mapM (·.2) with
      | some js =>
        drop
        return js
      | none => throw .mismatched

/-- A list of exactly so many items. -/
def exactly (count : Nat) (shape : Shape) : Shape := fun depth => do
  if (← peek) = ascii '[' then
    enter depth fun depth => do
      return .list (← sequence depth true (List.replicate count (shape, none)))
  else refuse

/-- A field of a record, with the value that stands for it in an object without it. -/
structure Field where
  name : String
  shape : Shape
  absent : Option Json

/-- A field that must be given. -/
def required (name : String) (shape : Shape) : Field := ⟨name, shape, none⟩

/-- A field that may be nothing or not given at all. -/
def option (name : String) (shape : Shape) : Field := ⟨name, optional shape, some .null⟩

/-- A field with a default. -/
def setting (name : String) (shape : Shape) (default : Json) : Field :=
  ⟨name, shape, some default⟩

/-- One field of an object: it is read if it belongs to the record, where it may not have been
met before, and else passed over. -/
def field (depth : Nat) (fields : List Field) (seen : List (String × Json)) :
    Reader (List (String × Json)) := do
  drop
  let name ← readText
  match fields.find? (·.name = name) with
  | none =>
    expect ':'
    skipValue (← itemBound)
    return seen
  | some f =>
    if (seen.lookup name).isSome then throw .mismatched
    expect ':'
    return (name, ← f.shape depth) :: seen

/-- The fields in their declared order. -/
def complete (fields : List Field) (seen : List (String × Json)) : Option (List (String × Json)) :=
  fields.mapM fun f => do return (f.name, ← (seen.lookup f.name) <|> f.absent)

/-- An object with the fields in any order, or a list of their values in the declared one.
`short` tells whether the list may end early. -/
def fieldsOf (short : Bool) (fields : List Field) : Shape := fun depth => do
  let b ← peek
  if b = ascii '{' then
    enter depth fun depth => do
      match complete fields (← foldFields (field depth fields) (← itemBound) true []) with
      | some js => return .object js
      | none => throw .mismatched
  else if b = ascii '[' then
    enter depth fun depth => do
      let js ← sequence depth true
        (fields.map fun f => (f.shape, if short then f.absent else none))
      return .object ((fields.map (·.name)).zip js)
  else refuse

def record (fields : List Field) : Shape :=
  fieldsOf false fields

def settings (fields : List Field) : Shape :=
  fieldsOf true fields

/-- One of the named variants: a name alone, or an object with the name and what goes with it.
A variant without content takes nothing there. -/
def choice (variants : List (String × Option Shape)) : Shape := fun depth => do
  let b ← peek
  if b = ascii '"' then
    drop
    let name ← readText
    match variants.lookup name with
    | some none => return .text name
    | _ => throw .mismatched
  else if b = ascii '{' then
    enter depth fun depth => do
      expect '"'
      let name ← readText
      match variants.lookup name with
      | none => throw .mismatched
      | some content =>
        expect ':'
        let j ← match content with
          | none =>
            if (← peek) = ascii 'n' then
              let _ ← value 0
              pure (.text name)
            else refuse
          | some shape => do pure (.object [(name, ← shape depth)])
        expect '}'
        return j
  else throw .malformed

/-- The number fields of a variant whose name stands among them. -/
inductive NumberKind where
  | float
  | word32
  deriving DecidableEq, Repr

def NumberKind.accept : NumberKind → Json → Option Json
  | .float, j => j.float?.map .number
  | .word32, j => j.nat?.bind fun n => if n < 4294967296 then some (.int n) else none

/-- The fields of a variant among those of an object; a repeated one fails. -/
def takeFields (fields : List (String × NumberKind)) (given : List (String × Json)) :
    Option (List (String × Json)) :=
  fields.mapM fun (name, kind) =>
    match given.filter (·.1 = name) with
    | [(_, j)] => do return (name, ← kind.accept j)
    | _ => none

/-- The fields of a variant from their values in order, neither fewer nor more. -/
def takeItems (fields : List (String × NumberKind)) (given : List Json) :
    Option (List (String × Json)) :=
  if fields.length = given.length then
    (fields.zip given).mapM fun ((name, kind), j) => do return (name, ← kind.accept j)
  else none

/-- One field of an object that names its variant: the name once, the rest kept for later. -/
def taggedField (depth : Nat) (tag : String) (names : List String)
    (s : Option String × List (String × Json)) : Reader (Option String × List (String × Json)) := do
  drop
  let name ← readText
  if name = tag then
    if s.1.isSome then throw .mismatched
    expect ':'
    match ← text depth with
    | .text variant => if variant ∈ names then return (some variant, s.2) else throw .mismatched
    | _ => throw .mismatched
  else
    expect ':'
    return (s.1, (name, ← value depth) :: s.2)

def orMismatched : Option α → Reader α
  | some a => return a
  | none => throw .mismatched

/-- A variant named by the field `tag` of an object, or by the first item of a list, with the
number fields that belong to it. -/
def tagged (tag : String) (variants : List (String × List (String × NumberKind))) : Shape :=
  fun depth => do
  let b ← peek
  let names := variants.map (·.1)
  let finish (variant : String) (js : List (String × Json)) : Json :=
    .object ((tag, .text variant) :: js)
  if b = ascii '{' then
    enter depth fun depth => do
      let (variant, rest) ← foldFields (taggedField depth tag names) (← itemBound) true (none, [])
      let variant ← orMismatched variant
      let fields ← orMismatched (variants.lookup variant)
      return finish variant (← orMismatched (takeFields fields rest.reverse))
  else if b = ascii '[' then
    enter depth fun depth => do
      if ← moreItems true then
        match ← text depth with
        | .text variant =>
          let fields ← orMismatched (variants.lookup variant)
          let rest ← items (value depth) (← itemBound) false
          return finish variant (← orMismatched (takeItems fields rest))
        | _ => throw .mismatched
      else throw .mismatched
  else refuse

/-- The value in normal form that a whole text holds. -/
def decode (shape : Shape) (bytes : Bytes) : Except Fault Json :=
  readWhole (shape maxDepth) bytes

end Shape

end Sortie.Json
