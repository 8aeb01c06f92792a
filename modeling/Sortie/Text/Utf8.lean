/-!
# Text as bytes

`encode` writes text in UTF-8. `decode?` accepts exactly the shortest forms of the code points
that are characters.
-/

namespace Sortie.Text

abbrev Bytes := List UInt8

def encodeChar (c : Char) : Bytes :=
  let n := c.toNat
  if n < 0x80 then [UInt8.ofNat n]
  else if n < 0x800 then [UInt8.ofNat (0xC0 + n / 64), UInt8.ofNat (0x80 + n % 64)]
  else if n < 0x10000 then
    [UInt8.ofNat (0xE0 + n / 4096), UInt8.ofNat (0x80 + n / 64 % 64), UInt8.ofNat (0x80 + n % 64)]
  else
    [UInt8.ofNat (0xF0 + n / 262144), UInt8.ofNat (0x80 + n / 4096 % 64),
      UInt8.ofNat (0x80 + n / 64 % 64), UInt8.ofNat (0x80 + n % 64)]

def encode (cs : List Char) : Bytes :=
  cs.flatMap encodeChar

/-- A character, if `n` is the code point of one that needs at least `low`. -/
def char? (low n : Nat) : Option Char :=
  if h : n.isValidChar then if low ≤ n then some (Char.ofNatAux n h) else none else none

/-- The low bits of a byte that continues a character. -/
def tail? (b : UInt8) : Option Nat :=
  if 0x80 ≤ b.toNat ∧ b.toNat < 0xC0 then some (b.toNat - 0x80) else none

def decode? : Bytes → Option (List Char)
  | [] => some []
  | a :: r =>
    if a.toNat < 0x80 then do
      let c ← char? 0 a.toNat
      let cs ← decode? r
      return c :: cs
    else if a.toNat < 0xC0 then none
    else match r with
      | [] => none
      | b :: r =>
        if a.toNat < 0xE0 then do
          let c ← char? 0x80 ((a.toNat - 0xC0) * 64 + (← tail? b))
          let cs ← decode? r
          return c :: cs
        else match r with
          | [] => none
          | c :: r =>
            if a.toNat < 0xF0 then do
              let x ← char? 0x800 (((a.toNat - 0xE0) * 64 + (← tail? b)) * 64 + (← tail? c))
              let cs ← decode? r
              return x :: cs
            else match r with
              | [] => none
              | d :: r =>
                if a.toNat < 0xF8 then do
                  let x ← char? 0x10000
                    ((((a.toNat - 0xF0) * 64 + (← tail? b)) * 64 + (← tail? c)) * 64 + (← tail? d))
                  let cs ← decode? r
                  return x :: cs
                else none

end Sortie.Text
