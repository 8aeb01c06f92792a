import Sortie.Command.Sequence
import Sortie.Decimal.Numeral
import Sortie.Text.Blank

/-!
# Waypoint lists

A waypoint list is the text form of a sequence: a header and a line of twelve fields for each
item. Fields are written with tabs between them and may be read with any blanks; blank lines
do not count.
-/

namespace Sortie.Waylist

open Decimal (natural positional bounded? float?)

def header : List Char := "QGC WPL 120".toList

/-- What the first line has to start with. -/
def headerStart : List Char := "QGC WPL".toList

def flag (b : Bool) : List Char :=
  [if b then '1' else '0']

/-- The fields of the item at an index. The second one marks the first item. -/
def itemFields (index : Nat) (i : Item) : List (List Char) :=
  [natural index, flag (index = 0), natural i.frame, natural i.command,
    positional i.params.a, positional i.params.b, positional i.params.c, positional i.params.d,
    positional i.x, positional i.y, positional i.z, flag i.autocontinue]

def itemLine (index : Nat) (i : Item) : List Char :=
  List.intercalate ['\t'] (itemFields index i) ++ ['\n']

def write (s : Sequence) : List Char :=
  header ++ '\n' :: (s.toItems.zipIdx.flatMap fun (i, index) => itemLine index i)

/-! ## Reading -/

/-- The lines that are not blank, without blanks around them and with their numbers. -/
def numberedLines (text : List Char) : List (Nat × List Char) :=
  ((Text.splitLines text).zipIdx 1).filterMap fun (line, number) =>
    let line := Text.trim line
    if line.isEmpty then none else some (number, line)

/-- A field, read by `read?`. -/
def readField (line index : Nat) (fields : List (List Char)) (read? : List Char → Option α) :
    Except CommandFault α :=
  let field := fields[index]?.getD []
  match read? field with
  | some a => .ok a
  | none => .error (.badField line field index)

/-- An item from the fields of its line. The first two fields are not looked at. -/
def readItem (line : Nat) (fields : List (List Char)) : Except CommandFault Item := do
  if fields.length ≠ 12 then throw (.fieldCount line fields.length)
  let autocontinue ← readField line 11 fields (bounded? 255)
  let frame ← readField line 2 fields (bounded? 255)
  let command ← readField line 3 fields (bounded? 65535)
  let a ← readField line 4 fields float?
  let b ← readField line 5 fields float?
  let c ← readField line 6 fields float?
  let d ← readField line 7 fields float?
  let x ← readField line 8 fields float?
  let y ← readField line 9 fields float?
  let z ← readField line 10 fields float?
  return { command, frame, params := ⟨a, b, c, d⟩, x, y, z, autocontinue := autocontinue ≠ 0 }

/-- The sequence that a text holds. A line that cannot be read comes before an item that is no
command. -/
def read (text : List Char) : Except CommandFault Sequence :=
  match numberedLines text with
  | [] => .error .missingHeader
  | (_, first) :: rest =>
    if headerStart.isPrefixOf first then do
      let items ← rest.mapM fun (number, line) => readItem number (Text.fields line)
      Sequence.ofItems items
    else .error .missingHeader

end Sortie.Waylist
