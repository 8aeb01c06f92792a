import Sortie.Decimal.Layout

/-!
# JSON values and how they are written

The fields of an object keep their order. There are two layouts, one on a single line without
blanks and one with a line for each item and two blanks for each level.
-/

namespace Sortie

inductive Json where
  | null
  | bool (b : Bool)
  | int (n : Int)
  | number (x : Float)
  | text (s : String)
  | list (items : List Json)
  | object (fields : List (String × Json))
  deriving Inhabited

namespace Json

/-- A character of a text below the blank is written by name or by number, the quote and the
backslash by name, and all others as they are. -/
def escapeChar (c : Char) : List Char :=
  if c = '"' then ['\\', '"']
  else if c = '\\' then ['\\', '\\']
  else if c = '\n' then ['\\', 'n']
  else if c = '\r' then ['\\', 'r']
  else if c = '\t' then ['\\', 't']
  else if c.toNat = 8 then ['\\', 'b']
  else if c.toNat = 12 then ['\\', 'f']
  else if c.toNat < 32 then
    ['\\', 'u', '0', '0', Nat.digitChar (c.toNat / 16), Nat.digitChar (c.toNat % 16)]
  else [c]

def quoted (s : String) : List Char :=
  '"' :: (s.toList.flatMap escapeChar ++ ['"'])

/-- A number is written with a fraction or an exponent, one that is not finite as nothing. -/
def numeral (x : Float) : List Char :=
  (Decimal.fractional? x).getD ['n', 'u', 'l', 'l']

def truth (b : Bool) : List Char :=
  if b then ['t', 'r', 'u', 'e'] else ['f', 'a', 'l', 's', 'e']

mutual

def compact : Json → List Char
  | .null => ['n', 'u', 'l', 'l']
  | .bool b => truth b
  | .int n => Decimal.integer n
  | .number x => numeral x
  | .text s => quoted s
  | .list [] => ['[', ']']
  | .list (j :: js) => '[' :: (compact j ++ compactItems js)
  | .object [] => ['{', '}']
  | .object ((k, j) :: fs) => '{' :: (quoted k ++ ':' :: (compact j ++ compactFields fs))

def compactItems : List Json → List Char
  | [] => [']']
  | j :: js => ',' :: (compact j ++ compactItems js)

def compactFields : List (String × Json) → List Char
  | [] => ['}']
  | (k, j) :: fs => ',' :: (quoted k ++ ':' :: (compact j ++ compactFields fs))

end

/-- A new line at a level. -/
def newLine (level : Nat) : List Char :=
  '\n' :: List.replicate (2 * level) ' '

mutual

def pretty (level : Nat) : Json → List Char
  | .null => ['n', 'u', 'l', 'l']
  | .bool b => truth b
  | .int n => Decimal.integer n
  | .number x => numeral x
  | .text s => quoted s
  | .list [] => ['[', ']']
  | .list (j :: js) =>
    '[' :: (newLine (level + 1) ++ pretty (level + 1) j ++ prettyItems level js)
  | .object [] => ['{', '}']
  | .object ((k, j) :: fs) =>
    '{' :: (newLine (level + 1) ++ quoted k ++ ':' :: ' ' :: pretty (level + 1) j
      ++ prettyFields level fs)

def prettyItems (level : Nat) : List Json → List Char
  | [] => newLine level ++ [']']
  | j :: js => ',' :: (newLine (level + 1) ++ pretty (level + 1) j ++ prettyItems level js)

def prettyFields (level : Nat) : List (String × Json) → List Char
  | [] => newLine level ++ ['}']
  | (k, j) :: fs =>
    ',' :: (newLine (level + 1) ++ quoted k ++ ':' :: ' ' :: pretty (level + 1) j
      ++ prettyFields level fs)

end

/-! ## Looking into a value -/

def field? (name : String) : Json → Option Json
  | .object fields => fields.lookup name
  | _ => none

def bool? : Json → Option Bool
  | .bool b => some b
  | _ => none

def nat? : Json → Option Nat
  | .int (.ofNat n) => some n
  | _ => none

/-- A number; whole ones count. -/
def float? : Json → Option Float
  | .int n => some (Decimal.nearest (n < 0) n.natAbs 1)
  | .number x => some x
  | _ => none

def text? : Json → Option String
  | .text s => some s
  | _ => none

def list? (item : Json → Option α) : Json → Option (List α)
  | .list items => items.mapM item
  | _ => none

/-- A value that may be missing. -/
def optional? (item : Json → Option α) : Json → Option (Option α)
  | .null => some none
  | j => (item j).map some

def ofNat (n : Nat) : Json :=
  .int n

def ofOption (f : α → Json) : Option α → Json
  | none => .null
  | some a => f a

end Json

end Sortie
