import Sortie.Json.Number

/-!
# Words, texts and brackets of a JSON text

The readers here take one thing from the front of a text. Texts come in two kinds: one that is
kept must decode to characters, one that is passed over need only end.
-/

namespace Sortie.Json

open Text (Bytes)

def isSpace (b : UInt8) : Bool :=
  b = 32 || b = 9 || b = 10 || b = 13

def dropSpace : Bytes → Bytes
  | [] => []
  | b :: r => if isSpace b then dropSpace r else b :: r

/-- The next byte that is no space, left where it is. -/
def peek : Reader UInt8 := fun bytes =>
  match dropSpace bytes with
  | [] => .error .truncated
  | b :: r => .ok (b, b :: r)

def drop : Reader Unit := fun bytes =>
  .ok ((), bytes.tail)

/-- Exactly these characters. -/
def word : List Char → Reader Unit
  | [] => fun bytes => .ok ((), bytes)
  | c :: cs => fun bytes =>
    match bytes with
    | [] => .error .truncated
    | b :: r => if b = ascii c then word cs r else .error .malformed

/-- The next byte that is no space must be `c`. -/
def expect (c : Char) : Reader Unit := do
  if (← peek) = ascii c then drop else throw .malformed

def hexValue? (b : UInt8) : Option Nat :=
  let n := b.toNat
  if 48 ≤ n ∧ n ≤ 57 then some (n - 48)
  else if 65 ≤ n ∧ n ≤ 70 then some (n - 55)
  else if 97 ≤ n ∧ n ≤ 102 then some (n - 87)
  else none

def hexNumber? (a b c d : UInt8) : Option Nat := do
  return (((← hexValue? a) * 16 + (← hexValue? b)) * 16 + (← hexValue? c)) * 16 + (← hexValue? d)

def escaped? (b : UInt8) : Option UInt8 :=
  if b = ascii '"' ∨ b = ascii '\\' ∨ b = ascii '/' then some b
  else if b = ascii 'b' then some 8
  else if b = ascii 'f' then some 12
  else if b = ascii 'n' then some 10
  else if b = ascii 'r' then some 13
  else if b = ascii 't' then some 9
  else none

def isHighSurrogate (n : Nat) : Bool :=
  0xD800 ≤ n && n < 0xDC00

def isLowSurrogate (n : Nat) : Bool :=
  0xDC00 ≤ n && n < 0xE000

def joinSurrogates (high low : Nat) : Char :=
  Char.ofNat ((high - 0xD800) * 1024 + (low - 0xDC00) + 0x10000)

/-- The bytes of a text after its opening quote, in front of those in `seen`. -/
def textBytes (seen : Bytes) : Bytes → Except Fault (Bytes × Bytes)
  | [] => .error .truncated
  | b :: r =>
    if b = ascii '"' then .ok (seen.reverse, r)
    else if b = ascii '\\' then
      match r with
      | [] => .error .truncated
      | e :: r =>
        if e = ascii 'u' then
          match r with
          | h₁ :: h₂ :: h₃ :: h₄ :: r =>
            match hexNumber? h₁ h₂ h₃ h₄ with
            | none => .error .malformed
            | some n =>
              if isLowSurrogate n then .error .malformed
              else if isHighSurrogate n then
                match r with
                | [] => .error .truncated
                | x :: r =>
                  if x ≠ ascii '\\' then .error .malformed
                  else match r with
                    | [] => .error .truncated
                    | y :: r =>
                      if y ≠ ascii 'u' then .error .malformed
                      else match r with
                        | l₁ :: l₂ :: l₃ :: l₄ :: r =>
                          match hexNumber? l₁ l₂ l₃ l₄ with
                          | none => .error .malformed
                          | some m =>
                            if isLowSurrogate m then
                              textBytes ((Text.encodeChar (joinSurrogates n m)).reverse ++ seen) r
                            else .error .malformed
                        | _ => .error .truncated
              else textBytes ((Text.encodeChar (Char.ofNat n)).reverse ++ seen) r
          | _ => .error .truncated
        else match escaped? e with
          | none => .error .malformed
          | some b => textBytes (b :: seen) r
    else if b.toNat < 32 then .error .malformed
    else textBytes (b :: seen) r

/-- A text after its opening quote. -/
def readText : Reader String := fun bytes => do
  let (body, rest) ← textBytes [] bytes
  match Text.decode? body with
  | none => .error .malformed
  | some cs => .ok (String.ofList cs, rest)

/-- Passes over a text after its opening quote. -/
def skipTextBytes : Bytes → Except Fault (Unit × Bytes)
  | [] => .error .truncated
  | b :: r =>
    if b = ascii '"' then .ok ((), r)
    else if b = ascii '\\' then
      match r with
      | [] => .error .truncated
      | e :: r =>
        if e = ascii 'u' then
          match r with
          | h₁ :: h₂ :: h₃ :: h₄ :: r =>
            if (hexNumber? h₁ h₂ h₃ h₄).isNone then .error .malformed else skipTextBytes r
          | _ => .error .truncated
        else if (escaped? e).isNone then .error .malformed else skipTextBytes r
    else if b.toNat < 32 then .error .malformed
    else skipTextBytes r

def skipText : Reader Unit :=
  skipTextBytes

/-! ## Lists and objects -/

/-- One more than the bytes left: a bound on the items still to come. -/
def itemBound : Reader Nat := fun bytes =>
  .ok (bytes.length + 1, bytes)

/-- Whether another item of a list follows; its closing bracket stays. -/
def moreItems (first : Bool) : Reader Bool := do
  let b ← peek
  if b = ascii ']' then return false
  else if first then return true
  else if b = ascii ',' then
    drop
    if (← peek) = ascii ']' then throw .malformed else return true
  else throw .malformed

/-- Whether another field of an object follows; its name then starts at the next byte. -/
def moreFields (first : Bool) : Reader Bool := do
  let b ← peek
  if b = ascii '}' then return false
  else if first then
    if b = ascii '"' then return true else throw .malformed
  else if b = ascii ',' then
    drop
    if (← peek) = ascii '"' then return true else throw .malformed
  else throw .malformed

/-- The items of a list after its opening bracket. -/
def items (item : Reader α) : Nat → Bool → Reader (List α)
  | 0, _ => throw .malformed
  | bound + 1, first => do
    if ← moreItems first then
      let a ← item
      let rest ← items item bound false
      return a :: rest
    else
      drop
      return []

/-- Folds over the fields of an object after its opening bracket; `field` starts behind the
opening quote of a name. -/
def foldFields (field : σ → Reader σ) : Nat → Bool → σ → Reader σ
  | 0, _, _ => throw .malformed
  | bound + 1, first, s => do
    if ← moreFields first then
      let s ← field s
      foldFields field bound false s
    else
      drop
      return s

/-! ## Values of any shape -/

/-- A value of any shape with at most `depth` levels of brackets. Names may repeat. -/
def value : Nat → Reader Json
  | 0 => do
    let b ← peek
    if b = ascii '[' ∨ b = ascii '{' then throw .malformed else scalar b
  | depth + 1 => do
    let b ← peek
    if b = ascii '[' then
      drop
      return .list (← items (value depth) (← itemBound) true)
    else if b = ascii '{' then
      drop
      let field (fields : List (String × Json)) : Reader (List (String × Json)) := do
        drop
        let name ← readText
        expect ':'
        return (name, ← value depth) :: fields
      return .object (← foldFields field (← itemBound) true []).reverse
    else scalar b
where
  scalar (b : UInt8) : Reader Json := do
    if b = ascii 'n' then
      word ['n', 'u', 'l', 'l']
      return .null
    else if b = ascii 't' then
      word ['t', 'r', 'u', 'e']
      return .bool true
    else if b = ascii 'f' then
      word ['f', 'a', 'l', 's', 'e']
      return .bool false
    else if b = ascii '"' then
      drop
      return .text (← readText)
    else if b = ascii '-' ∨ (digit? b).isSome then readNumber
    else throw .malformed

/-- How many levels of brackets a text may have. -/
def maxDepth : Nat :=
  127

/-- Passes over a value of any shape, with at most `depth` levels. -/
def skipValue : Nat → Reader Unit
  | 0 => throw .malformed
  | depth + 1 => do
    let b ← peek
    if b = ascii '[' then
      drop
      let _ ← items (skipValue depth) (← itemBound) true
    else if b = ascii '{' then
      drop
      let field (_ : Unit) : Reader Unit := do
        drop
        skipText
        expect ':'
        skipValue depth
      foldFields field (← itemBound) true ()
    else if b = ascii 'n' then word ['n', 'u', 'l', 'l']
    else if b = ascii 't' then word ['t', 'r', 'u', 'e']
    else if b = ascii 'f' then word ['f', 'a', 'l', 's', 'e']
    else if b = ascii '"' then
      drop
      skipText
    else if b = ascii '-' ∨ (digit? b).isSome then skipNumber
    else throw .malformed

/-- Runs a reader on a whole text; only spaces may follow. -/
def readWhole (reader : Reader α) (bytes : Bytes) : Except Fault α := do
  let (a, rest) ← reader bytes
  if (dropSpace rest).isEmpty then return a else throw .malformed

/-- The value that a text holds. -/
def parse (bytes : Bytes) : Except Fault Json :=
  readWhole (value maxDepth) bytes

end Sortie.Json
