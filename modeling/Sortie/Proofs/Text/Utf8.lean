import Sortie.Text.Utf8

/-!
# Text is read as it was written

A character is taken back from its bytes, whatever follows (`decode?_encodeChar`), and so is a text
from its characters (`decode?_encode`).
-/

namespace Sortie.Text

theorem char?_toNat {low : Nat} (c : Char) (h : low ≤ c.toNat) : char? low c.toNat = some c := by
  have hvalid : c.toNat.isValidChar := c.valid
  unfold char?
  rw [dif_pos hvalid, if_pos h]
  rfl

theorem toNat_lt (c : Char) : c.toNat < 0x110000 := by
  have h : c.toNat.isValidChar := c.valid
  unfold Nat.isValidChar at h
  omega

theorem toNat_ofNat_of_lt {n : Nat} (h : n < 256) : (UInt8.ofNat n).toNat = n := by
  simp [Nat.mod_eq_of_lt h]

/-- A byte that continues a character gives its low bits. -/
theorem tail?_ofNat {n : Nat} (h : n < 64) : tail? (UInt8.ofNat (0x80 + n)) = some n := by
  have hn : 0x80 + n - 0x80 = n := Nat.add_sub_cancel_left ..
  unfold tail?
  rw [toNat_ofNat_of_lt (by omega), if_pos (by omega), hn]

/-- The number of a character is put together again from its parts of six bits. -/
theorem decode?_encodeChar (c : Char) (r : Bytes) :
    decode? (encodeChar c ++ r) = (decode? r).map (c :: ·) := by
  have hc := toNat_lt c
  have hlow (n : Nat) : tail? (UInt8.ofNat (0x80 + n % 64)) = some (n % 64) :=
    tail?_ofNat (Nat.mod_lt n (by decide))
  have hlead {n : Nat} (h : n < 256) : (UInt8.ofNat n).toNat = n := toNat_ofNat_of_lt h
  have hmap : (decode? r).map (c :: ·) = (decode? r).bind fun cs => some (c :: cs) :=
    Option.map_eq_bind ..
  rw [hmap]
  dsimp only [encodeChar]
  split
  · next h =>
    simp only [List.cons_append, List.nil_append]
    rw [decode?.eq_def]
    dsimp only
    rw [hlead (by omega), if_pos h, char?_toNat c (Nat.zero_le _)]
    rfl
  split
  · have hn : (0xC0 + c.toNat / 64 - 0xC0) * 64 + c.toNat % 64 = c.toNat := by omega
    simp only [List.cons_append, List.nil_append]
    rw [decode?.eq_def]
    dsimp only
    rw [hlead (by omega), if_neg (by omega), if_neg (by omega), if_pos (by omega), hlow]
    simp only [Option.bind_eq_bind, Option.bind_some, hn]
    rw [char?_toNat c (by omega)]
    rfl
  split
  · have hn : ((0xE0 + c.toNat / 4096 - 0xE0) * 64 + c.toNat / 64 % 64) * 64 + c.toNat % 64
        = c.toNat := by omega
    simp only [List.cons_append, List.nil_append]
    rw [decode?.eq_def]
    dsimp only
    rw [hlead (by omega), if_neg (by omega), if_neg (by omega), if_neg (by omega),
      if_pos (by omega), hlow, hlow]
    simp only [Option.bind_eq_bind, Option.bind_some, hn]
    rw [char?_toNat c (by omega)]
    rfl
  · have hn : (((0xF0 + c.toNat / 262144 - 0xF0) * 64 + c.toNat / 4096 % 64) * 64
        + c.toNat / 64 % 64) * 64 + c.toNat % 64 = c.toNat := by omega
    simp only [List.cons_append, List.nil_append]
    rw [decode?.eq_def]
    dsimp only
    rw [hlead (by omega), if_neg (by omega), if_neg (by omega), if_neg (by omega),
      if_neg (by omega), if_pos (by omega), hlow, hlow, hlow]
    simp only [Option.bind_eq_bind, Option.bind_some, hn]
    rw [char?_toNat c (by omega)]
    rfl

theorem encode_cons (c : Char) (cs : List Char) : encode (c :: cs) = encodeChar c ++ encode cs :=
  rfl

theorem encode_append (cs ds : List Char) : encode (cs ++ ds) = encode cs ++ encode ds :=
  List.flatMap_append

theorem encodeChar_ne_nil (c : Char) : encodeChar c ≠ [] := by
  dsimp only [encodeChar]
  split
  · exact List.cons_ne_nil _ _
  split
  · exact List.cons_ne_nil _ _
  split
  · exact List.cons_ne_nil _ _
  · exact List.cons_ne_nil _ _

theorem encode_ne_nil {cs : List Char} (h : cs ≠ []) : encode cs ≠ [] := by
  cases cs with
  | nil => exact absurd rfl h
  | cons c cs =>
    rw [encode_cons]
    exact List.append_ne_nil_of_left_ne_nil (encodeChar_ne_nil c) _

theorem decode?_encode (cs : List Char) : decode? (encode cs) = some cs := by
  induction cs with
  | nil => rfl
  | cons c cs ih =>
    rw [encode_cons, decode?_encodeChar, ih]
    rfl

end Sortie.Text
