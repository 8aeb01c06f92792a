import Sortie.Json.Number
import Sortie.Proofs.Text.Utf8

/-!
# Numbers at the front of a text

A reader takes a piece of text if what it makes of the piece does not hang on what follows
(`Takes`), as long as no number goes on there (`Ends`).  Whole numbers are taken for what they are
(`takes_natural`).  A number with a fraction or an exponent is taken whole, but for a value that need
not be the one written, and perhaps refused (`exists_takes_readNumber`).
-/

namespace Sortie.Json

open Text (Bytes)

/-- A byte that a number may go on with. -/
def inNumber (b : UInt8) : Bool :=
  (digit? b).isSome || b = ascii '.' || isExponentMark b || b = ascii '+' || b = ascii '-'

/-- No number goes on with these bytes. -/
def Ends (rest : Bytes) : Prop :=
  ∀ b, rest.head? = some b → inNumber b = false

/-- The reader takes the piece from the front of any text, for the value given if there is one. -/
def Takes (reader : Reader α) (piece : Bytes) (a? : Option α) : Prop :=
  ∀ rest, Ends rest → (reader (piece ++ rest)).toOption = a?.map (·, rest)

theorem ends_nil : Ends [] := by
  intro b hb
  cases hb

theorem ends_cons {b : UInt8} (hb : inNumber b = false) (rest : Bytes) : Ends (b :: rest) := by
  intro c hc
  rw [← Option.some.inj hc]
  exact hb

namespace Ends

variable {rest : Bytes}

theorem not_digit (h : Ends rest) : startsWithDigit rest = false := by
  cases rest with
  | nil => rfl
  | cons b rest =>
    have hb := h b rfl
    simp only [inNumber, Bool.or_eq_false_iff] at hb
    exact hb.1.1.1.1

theorem not_exponentMark {b : UInt8} (h : Ends (b :: rest)) : isExponentMark b = false := by
  have hb := h b rfl
  simp only [inNumber, Bool.or_eq_false_iff] at hb
  exact hb.1.1.2

theorem ne_point {b : UInt8} (h : Ends (b :: rest)) : b ≠ ascii '.' := by
  have hb := h b rfl
  simp only [inNumber, Bool.or_eq_false_iff, decide_eq_false_iff_not] at hb
  exact hb.1.1.1.2

end Ends

/-! ### Runs of digits -/

/-- Bytes that are all digits. -/
def IsDigits (ds : Bytes) : Prop :=
  ∀ b ∈ ds, (digit? b).isSome = true

theorem startsWithDigit_append_of_ne_nil {ds : Bytes} (h : IsDigits ds) (hne : ds ≠ [])
    (rest : Bytes) : startsWithDigit (ds ++ rest) = true := by
  cases ds with
  | nil => exact absurd rfl hne
  | cons b ds => exact h b List.mem_cons_self

theorem dropDigits_append {ds rest : Bytes} (h : IsDigits ds) (hr : startsWithDigit rest = false)
    (count : Nat) : dropDigits count (ds ++ rest) = (count + ds.length, rest) := by
  induction ds generalizing count with
  | nil =>
    cases rest with
    | nil => rfl
    | cons b rest => simp [dropDigits, show (digit? b).isSome = false from hr]
  | cons b ds ih =>
    have hb := h b List.mem_cons_self
    simp only [List.cons_append, dropDigits, hb, if_true]
    rw [ih fun c hc => h c (List.mem_cons_of_mem b hc)]
    simp [Nat.add_comm, Nat.add_left_comm]

/-- Digits are gathered up to the first that does not fit. -/
theorem exists_gather_append (limit : Nat) {ds : Bytes} (h : IsDigits ds) (n count : Nat) :
    ∃ n' count' left, IsDigits left ∧ ∀ rest, startsWithDigit rest = false →
      gather limit n count (ds ++ rest) = (n', count', left ++ rest) := by
  induction ds generalizing n count with
  | nil =>
    refine ⟨n, count, [], h, fun rest hr => ?_⟩
    cases rest with
    | nil => rfl
    | cons b rest =>
      have hb : digit? b = none := Option.not_isSome_iff_eq_none.mp (Bool.eq_false_iff.mp hr)
      simp [gather, hb]
  | cons b ds ih =>
    obtain ⟨d, hd⟩ := Option.isSome_iff_exists.mp (h b List.mem_cons_self)
    have hds : IsDigits ds := fun c hc => h c (List.mem_cons_of_mem b hc)
    by_cases hfits : n * 10 + d < limit
    · obtain ⟨n', count', left, hleft, hgather⟩ := ih hds (n * 10 + d) (count + 1)
      refine ⟨n', count', left, hleft, fun rest hr => ?_⟩
      simp only [List.cons_append, gather, hd, if_pos hfits]
      exact hgather rest hr
    · refine ⟨n, count, b :: ds, h, fun rest _ => ?_⟩
      simp only [List.cons_append, gather, hd, if_neg hfits]

/-! ### Numbers with a fraction or an exponent -/

theorem exists_takes_ofParts (negative : Bool) (n : Nat) (exponent : Int) :
    ∃ j?, Takes (ofParts negative n exponent) [] j? := by
  refine ⟨(scale 8 (Decimal.nearest false n 1) exponent).toOption.map
    fun x => .number (signedFloat negative x), fun rest _ => ?_⟩
  unfold ofParts
  cases scale 8 (Decimal.nearest false n 1) exponent <;> rfl

theorem exists_takes_exponentDigits (negative : Bool) (n : Nat) (start : Int) (down : Bool)
    {ds : Bytes} (h : IsDigits ds) (hne : ds ≠ []) :
    ∃ j?, Takes (exponentDigits negative n start down) ds j? := by
  cases ds with
  | nil => exact absurd rfl hne
  | cons b ds =>
    obtain ⟨d, hd⟩ := Option.isSome_iff_exists.mp (h b List.mem_cons_self)
    obtain ⟨e, count, left, hleft, hgather⟩ := exists_gather_append 2147483648
      (fun c hc => h c (List.mem_cons_of_mem b hc)) d 0
    by_cases hempty : left = []
    · subst hempty
      obtain ⟨j?, hj⟩ := exists_takes_ofParts negative n
        (limitExponent (if down then start - e else start + e))
      refine ⟨j?, fun rest hr => ?_⟩
      simp only [List.cons_append, exponentDigits, hd, hgather rest hr.not_digit, List.nil_append,
        hr.not_digit]
      exact hj rest hr
    · refine ⟨if n ≠ 0 ∧ ¬ down then none else some (.number (signedFloat negative 0.0)),
        fun rest hr => ?_⟩
      simp only [List.cons_append, exponentDigits, hd, hgather rest hr.not_digit,
        startsWithDigit_append_of_ne_nil hleft hempty, dropDigits_append hleft hr.not_digit, if_true]
      split <;> rfl

/-- A power of ten at the end of a number, with its sign. -/
inductive IsPower : Bytes → Prop
  | none : IsPower []
  | some {mark sign : UInt8} {ds : Bytes} (hmark : isExponentMark mark = true)
      (hsign : sign = ascii '+' ∨ sign = ascii '-') (hds : IsDigits ds) (hne : ds ≠ []) :
      IsPower (mark :: sign :: ds)

theorem eq_of_isExponentMark {b : UInt8} (h : isExponentMark b = true) :
    b = ascii 'e' ∨ b = ascii 'E' := by
  simpa [isExponentMark] using h

/-- What stands behind the whole part of a number. -/
inductive IsTail : Bytes → Prop
  | power {t : Bytes} (ht : IsPower t) : IsTail t
  | fraction {ds t : Bytes} (hds : IsDigits ds) (hne : ds ≠ []) (ht : IsPower t) :
      IsTail (ascii '.' :: (ds ++ t))

theorem IsPower.not_digit {t rest : Bytes} (h : IsPower t) (hr : Ends rest) :
    startsWithDigit (t ++ rest) = false := by
  cases h with
  | none => exact hr.not_digit
  | some hmark =>
    rcases eq_of_isExponentMark hmark with rfl | rfl <;> rfl

theorem ne_point_of_isExponentMark {b : UInt8} (h : isExponentMark b = true) : b ≠ ascii '.' := by
  rcases eq_of_isExponentMark h with rfl | rfl <;> decide

theorem exists_takes_exponentPart (negative : Bool) (n : Nat) (start : Int) {sign : UInt8}
    {ds : Bytes} (hsign : sign = ascii '+' ∨ sign = ascii '-') (hds : IsDigits ds) (hne : ds ≠ []) :
    ∃ j?, Takes (exponentPart negative n start) (sign :: ds) j? := by
  obtain ⟨j?, hj⟩ := exists_takes_exponentDigits negative n start (sign = ascii '-') hds hne
  refine ⟨j?, fun rest hr => ?_⟩
  rcases hsign with rfl | rfl
  · exact hj rest hr
  · exact hj rest hr

theorem exists_takes_afterFraction (negative : Bool) (n : Nat) (exponent : Int) {t : Bytes}
    (h : IsPower t) : ∃ j?, Takes (afterFraction negative n exponent) t j? := by
  cases h with
  | none =>
    obtain ⟨j?, hj⟩ := exists_takes_ofParts negative n exponent
    refine ⟨j?, fun rest hr => ?_⟩
    cases rest with
    | nil => exact hj [] hr
    | cons b rest =>
      simp only [List.nil_append, afterFraction, hr.not_exponentMark]
      exact hj (b :: rest) hr
  | some hmark hsign hds hne =>
    obtain ⟨j?, hj⟩ := exists_takes_exponentPart negative n exponent hsign hds hne
    refine ⟨j?, fun rest hr => ?_⟩
    simp only [List.cons_append, afterFraction, hmark, if_true]
    exact hj rest hr

theorem exists_takes_fractionPart (negative : Bool) (n : Nat) (start : Int) {ds t : Bytes}
    (h : IsDigits ds) (ht : IsPower t) : ∃ j?, Takes (fractionPart negative n start) (ds ++ t) j? := by
  obtain ⟨n', count, left, hleft, hgather⟩ := exists_gather_append 18446744073709551616 h n 0
  obtain ⟨j?, hj⟩ := exists_takes_afterFraction negative n' (start - count) ht
  by_cases hempty : left = []
  · subst hempty
    by_cases hcount : count = 0
    · refine ⟨none, fun rest hr => ?_⟩
      have hrest := ht.not_digit hr
      simp only [List.append_assoc, fractionPart, hgather _ hrest, List.nil_append, hrest, hcount]
      cases t ++ rest <;> rfl
    · refine ⟨j?, fun rest hr => ?_⟩
      have hrest := ht.not_digit hr
      simp only [List.append_assoc, fractionPart, hgather _ hrest, List.nil_append, hrest,
        if_neg hcount]
      exact hj rest hr
  · refine ⟨j?, fun rest hr => ?_⟩
    have hrest := ht.not_digit hr
    simp only [List.append_assoc, fractionPart, hgather _ hrest,
      startsWithDigit_append_of_ne_nil hleft hempty, dropDigits_append hleft hrest, if_true]
    exact hj rest hr

theorem IsTail.not_digit {t rest : Bytes} (h : IsTail t) (hr : Ends rest) :
    startsWithDigit (t ++ rest) = false := by
  cases h with
  | power ht => exact ht.not_digit hr
  | fraction => rfl

theorem takes_afterWhole_nil (negative : Bool) (n : Nat) :
    Takes (afterWhole negative n) [] (some (wholeNumber negative n)) := by
  intro rest hr
  cases rest with
  | nil => rfl
  | cons b rest =>
    simp only [List.nil_append, afterWhole, if_neg hr.ne_point, hr.not_exponentMark]
    rfl

theorem exists_takes_afterWhole (negative : Bool) (n : Nat) {t : Bytes} (h : IsTail t) :
    ∃ j?, Takes (afterWhole negative n) t j? := by
  cases h with
  | fraction hds hne ht =>
    obtain ⟨j?, hj⟩ := exists_takes_fractionPart negative n 0 hds ht
    refine ⟨j?, fun rest hr => ?_⟩
    simp only [List.cons_append, afterWhole, if_true]
    exact hj rest hr
  | power ht =>
    cases ht with
    | none => exact ⟨_, takes_afterWhole_nil negative n⟩
    | some hmark hsign hds hne =>
      obtain ⟨j?, hj⟩ := exists_takes_exponentPart negative n 0 hsign hds hne
      refine ⟨j?, fun rest hr => ?_⟩
      simp only [List.cons_append, afterWhole, if_neg (ne_point_of_isExponentMark hmark), hmark,
        if_true]
      exact hj rest hr

theorem exists_takes_afterLong (negative : Bool) (n : Nat) {ds t : Bytes} (hds : IsDigits ds)
    (h : IsTail t) : ∃ j?, Takes (afterLong negative n) (ds ++ t) j? := by
  have hdrop (rest : Bytes) (hr : Ends rest) :
      dropDigits 0 (ds ++ t ++ rest) = (0 + ds.length, t ++ rest) := by
    rw [List.append_assoc]
    exact dropDigits_append hds (h.not_digit hr) 0
  cases h with
  | fraction hfs hne ht =>
    obtain ⟨j?, hj⟩ := exists_takes_fractionPart negative n (0 + ds.length : Nat) hfs ht
    refine ⟨j?, fun rest hr => ?_⟩
    simp only [afterLong, hdrop rest hr, List.cons_append, if_true]
    exact hj rest hr
  | power ht =>
    cases ht with
    | none =>
      obtain ⟨j?, hj⟩ := exists_takes_ofParts negative n (0 + ds.length : Nat)
      refine ⟨j?, fun rest hr => ?_⟩
      simp only [afterLong, hdrop rest hr]
      cases rest with
      | nil => exact hj [] hr
      | cons b rest =>
        simp only [List.nil_append, if_neg hr.ne_point, hr.not_exponentMark]
        exact hj (b :: rest) hr
    | some hmark hsign hes hne =>
      obtain ⟨j?, hj⟩ :=
        exists_takes_exponentPart negative n (0 + ds.length : Nat) hsign hes hne
      refine ⟨j?, fun rest hr => ?_⟩
      simp only [afterLong, hdrop rest hr, List.cons_append,
        if_neg (ne_point_of_isExponentMark hmark), hmark, if_true]
      exact hj rest hr

theorem exists_takes_unsignedNumber (negative : Bool) {ds t : Bytes} (hds : IsDigits ds)
    (hne : ds ≠ []) (h : IsTail t) : ∃ j?, Takes (unsignedNumber negative) (ds ++ t) j? := by
  cases ds with
  | nil => exact absurd rfl hne
  | cons b ds =>
    obtain ⟨d, hd⟩ := Option.isSome_iff_exists.mp (hds b List.mem_cons_self)
    have hds : IsDigits ds := fun c hc => hds c (List.mem_cons_of_mem b hc)
    cases d with
    | zero =>
      -- Behind a zero there is no other digit.
      by_cases hempty : ds = []
      · subst hempty
        obtain ⟨j?, hj⟩ := exists_takes_afterWhole negative 0 h
        refine ⟨j?, fun rest hr => ?_⟩
        simp only [List.cons_append, List.nil_append, unsignedNumber, hd, h.not_digit hr]
        exact hj rest hr
      · refine ⟨none, fun rest hr => ?_⟩
        simp only [List.cons_append, List.append_assoc, unsignedNumber, hd,
          startsWithDigit_append_of_ne_nil hds hempty, if_true]
        rfl
    | succ d =>
      obtain ⟨n, count, left, hleft, hgather⟩ :=
        exists_gather_append 18446744073709551616 hds (d + 1) 0
      by_cases hempty : left = []
      · subst hempty
        obtain ⟨j?, hj⟩ := exists_takes_afterWhole negative n h
        refine ⟨j?, fun rest hr => ?_⟩
        simp only [List.cons_append, List.append_assoc, unsignedNumber, hd,
          hgather _ (h.not_digit hr), List.nil_append, h.not_digit hr]
        exact hj rest hr
      · obtain ⟨j?, hj⟩ := exists_takes_afterLong negative n hleft h
        refine ⟨j?, fun rest hr => ?_⟩
        simp only [List.cons_append, List.append_assoc, unsignedNumber, hd,
          hgather _ (h.not_digit hr), startsWithDigit_append_of_ne_nil hleft hempty, if_true]
        rw [← List.append_assoc]
        exact hj rest hr

/-- A number without its sign. -/
inductive IsMagnitude : Bytes → Prop
  | intro {ds t : Bytes} (hds : IsDigits ds) (hne : ds ≠ []) (ht : IsTail t) :
      IsMagnitude (ds ++ t)

/-- A number with its sign. -/
inductive IsNumeral : Bytes → Prop
  | positive {piece : Bytes} (h : IsMagnitude piece) : IsNumeral piece
  | negative {piece : Bytes} (h : IsMagnitude piece) : IsNumeral (ascii '-' :: piece)

theorem ne_minus_of_digit {b : UInt8} (h : (digit? b).isSome = true) : b ≠ ascii '-' := by
  rintro rfl
  cases h

/-- What the front of a text with a number holds does not hang on what follows the number. -/
theorem exists_takes_readNumber {piece : Bytes} (h : IsNumeral piece) :
    ∃ j?, Takes readNumber piece j? := by
  cases h with
  | positive h =>
    obtain @⟨ds, t, hds, hne, ht⟩ := h
    obtain ⟨j?, hj⟩ := exists_takes_unsignedNumber false hds hne ht
    refine ⟨j?, fun rest hr => ?_⟩
    cases ds with
    | nil => exact absurd rfl hne
    | cons b ds =>
      have hb : b ≠ ascii '-' := ne_minus_of_digit (hds b List.mem_cons_self)
      simp only [List.cons_append, readNumber, if_neg hb]
      exact hj rest hr
  | negative h =>
    obtain ⟨hds, hne, ht⟩ := h
    obtain ⟨j?, hj⟩ := exists_takes_unsignedNumber true hds hne ht
    refine ⟨j?, fun rest hr => ?_⟩
    simp only [List.cons_append, readNumber, if_true]
    exact hj rest hr

/-! ### Whole numbers -/

/-- Characters that are all digits. -/
def AllDigits (cs : List Char) : Prop :=
  ∀ c ∈ cs, c.isDigit = true

theorem range_of_isDigit {c : Char} (h : c.isDigit = true) : 48 ≤ c.toNat ∧ c.toNat ≤ 57 := by
  simpa [Char.isDigit, UInt32.le_iff_toNat_le] using h

theorem digit?_ascii {c : Char} (h : c.isDigit = true) : digit? (ascii c) = some (c.toNat - 48) := by
  have hrange := range_of_isDigit h
  have hbyte : (ascii c).toNat = c.toNat := by
    simp only [ascii, UInt8.toNat_ofNat']
    omega
  unfold digit?
  rw [hbyte, if_pos hrange]

/-- A digit is a byte of its own. -/
theorem encode_of_digits {cs : List Char} (h : AllDigits cs) :
    Text.encode cs = cs.map ascii := by
  induction cs with
  | nil => rfl
  | cons c cs ih =>
    have hc := range_of_isDigit (h c List.mem_cons_self)
    rw [Text.encode_cons, ih fun d hd => h d (List.mem_cons_of_mem c hd)]
    unfold Text.encodeChar
    rw [if_pos (by omega)]
    rfl

theorem isDigits_encode {cs : List Char} (h : AllDigits cs) :
    IsDigits (Text.encode cs) := by
  intro b hb
  rw [encode_of_digits h] at hb
  obtain ⟨c, hc, rfl⟩ := List.mem_map.mp hb
  rw [digit?_ascii (h c hc)]
  rfl

theorem le_ofDigitChars (cs : List Char) (n : Nat) : n ≤ Nat.ofDigitChars 10 cs n := by
  rw [Nat.ofDigitChars_eq_ofDigitChars_zero]
  exact Nat.le_add_right_of_le (Nat.le_mul_of_pos_left n (Nat.pow_pos (by decide)))

/-- Digits whose value fits are all gathered. -/
theorem gather_map_ascii {limit : Nat} {cs : List Char} {rest : Bytes}
    (h : AllDigits cs) (hr : startsWithDigit rest = false) (n count : Nat)
    (hfits : Nat.ofDigitChars 10 cs n < limit) :
    gather limit n count (cs.map ascii ++ rest)
      = (Nat.ofDigitChars 10 cs n, count + cs.length, rest) := by
  induction cs generalizing n count with
  | nil =>
    cases rest with
    | nil => rfl
    | cons b rest =>
      have hb : digit? b = none := Option.not_isSome_iff_eq_none.mp (Bool.eq_false_iff.mp hr)
      simp [gather, hb]
  | cons c cs ih =>
    have hvalue : Nat.ofDigitChars 10 (c :: cs) n
        = Nat.ofDigitChars 10 cs (n * 10 + (c.toNat - 48)) := by
      rw [Nat.ofDigitChars_cons, Nat.mul_comm 10 n]
      rfl
    rw [hvalue] at hfits ⊢
    have hstep : n * 10 + (c.toNat - 48) < limit := Nat.lt_of_le_of_lt (le_ofDigitChars cs _) hfits
    simp only [List.map_cons, List.cons_append, gather, digit?_ascii (h c List.mem_cons_self),
      if_pos hstep]
    rw [ih (fun d hd => h d (List.mem_cons_of_mem c hd)) _ _ hfits]
    simp only [List.length_cons]
    congr 2
    omega

/-- No number but zero starts with a zero. -/
theorem exists_natural (n : Nat) :
    ∃ c cs, Decimal.natural n = c :: cs ∧ (c = '0' → n = 0 ∧ cs = []) := by
  induction n using Nat.strongRecOn with
  | ind n ih =>
    unfold Decimal.natural
    rw [Nat.toDigits_eq_if (by decide)]
    split
    · refine ⟨_, [], rfl, fun h => ⟨Nat.digitChar_eq_zero.mp h, rfl⟩⟩
    · next hn =>
      obtain ⟨c, cs, hcs, hzero⟩ := ih (n / 10) (by omega)
      refine ⟨c, cs ++ [Nat.digitChar (n % 10)], ?_, fun h => ?_⟩
      · rw [show Nat.toDigits 10 (n / 10) = c :: cs from hcs]
        rfl
      · have := (hzero h).1
        omega

theorem allDigits_natural (n : Nat) : AllDigits (Decimal.natural n) :=
  fun _ hc => Nat.isDigit_of_mem_toDigits (by decide) (by decide) hc

/-- Digits with no zero before the others. -/
structure IsWhole (w : List Char) : Prop where
  digits : AllDigits w
  exists_cons : ∃ c cs, w = c :: cs ∧ (c = '0' → cs = [])

theorem isWhole_natural (n : Nat) : IsWhole (Decimal.natural n) := by
  obtain ⟨c, cs, hcs, hzero⟩ := exists_natural n
  exact ⟨allDigits_natural n, c, cs, hcs, fun hc => (hzero hc).2⟩

theorem unsignedNumber_whole (negative : Bool) {w : List Char} {rest : Bytes} (h : IsWhole w)
    (hfits : Nat.ofDigitChars 10 w 0 < 18446744073709551616) (hr : startsWithDigit rest = false) :
    unsignedNumber negative (Text.encode w ++ rest)
      = afterWhole negative (Nat.ofDigitChars 10 w 0) rest := by
  obtain ⟨hdigits, c, cs, rfl, hzero⟩ := h
  have hc := hdigits c List.mem_cons_self
  have hvalue : Nat.ofDigitChars 10 (c :: cs) 0 = Nat.ofDigitChars 10 cs (c.toNat - 48) := by
    rw [Nat.ofDigitChars_cons, Nat.mul_zero, Nat.zero_add]
    rfl
  rw [encode_of_digits hdigits, hvalue]
  rw [hvalue] at hfits
  simp only [List.map_cons, List.cons_append, unsignedNumber, digit?_ascii hc]
  split
  · next heq => cases heq
  · next heq =>
    have hzeroChar : c = '0' := by
      have hrange := range_of_isDigit hc
      have hsub : c.toNat - 48 = 0 := Option.some.inj heq
      exact Char.toNat_inj.mp (by show c.toNat = 48; omega)
    obtain rfl := hzero hzeroChar
    simp only [List.map_nil, List.nil_append, hr, Option.some.inj heq, Nat.ofDigitChars_nil]
    rfl
  · next d hd heq =>
    rw [← Option.some.inj heq, gather_map_ascii (fun d hd => hdigits d (List.mem_cons_of_mem c hd))
      hr _ _ hfits]
    simp only [hr]
    rfl

theorem readNumber_whole {w : List Char} (h : IsWhole w) (rest : Bytes) :
    readNumber (Text.encode w ++ rest) = unsignedNumber false (Text.encode w ++ rest) := by
  obtain ⟨hdigits, c, cs, rfl, -⟩ := h
  have hminus : ascii c ≠ ascii '-' :=
    ne_minus_of_digit (by rw [digit?_ascii (hdigits c List.mem_cons_self)]; rfl)
  rw [encode_of_digits hdigits]
  simp only [List.map_cons, List.cons_append, readNumber, if_neg hminus]

theorem takes_natural {n : Nat} (h : n < 18446744073709551616) :
    Takes readNumber (Text.encode (Decimal.natural n)) (some (.int n)) := by
  have hwhole := isWhole_natural n
  have hvalue : Nat.ofDigitChars 10 (Decimal.natural n) 0 = n := Nat.ofDigitChars_ten_toDigits
  intro rest hr
  rw [readNumber_whole hwhole, unsignedNumber_whole false hwhole (hvalue.symm ▸ h) hr.not_digit,
    hvalue]
  exact takes_afterWhole_nil false n rest hr

/-! ### Numbers as they are written -/

theorem allDigits_replicate (k : Nat) : AllDigits (List.replicate k '0') := by
  intro c hc
  rw [List.eq_of_mem_replicate hc]
  rfl

theorem AllDigits.append {cs ds : List Char} (h : AllDigits cs) (h' : AllDigits ds) :
    AllDigits (cs ++ ds) := by
  intro c hc
  rcases List.mem_append.mp hc with hc | hc
  · exact h c hc
  · exact h' c hc

theorem natural_ne_nil (n : Nat) : Decimal.natural n ≠ [] := by
  obtain ⟨c, cs, hcs, -⟩ := exists_natural n
  rw [hcs]
  exact List.cons_ne_nil c cs

theorem isPower_exponent (sign : Char) (hsign : sign = '+' ∨ sign = '-') (e : Nat) :
    IsPower (Text.encode ('e' :: sign :: Decimal.natural e)) := by
  have hdigits := isDigits_encode (allDigits_natural e)
  have hne := Text.encode_ne_nil (natural_ne_nil e)
  rcases hsign with rfl | rfl
  · exact .some (by decide) (.inl rfl) hdigits hne
  · exact .some (by decide) (.inr rfl) hdigits hne

/-- Digits, a point and digits again, and perhaps a power of ten. -/
theorem isMagnitude_point {w f t : List Char} (hw : AllDigits w) (hne : w ≠ [])
    (hf : AllDigits f) (hne' : f ≠ []) (ht : IsPower (Text.encode t)) :
    IsMagnitude (Text.encode (w ++ '.' :: (f ++ t))) := by
  have htail : IsTail (ascii '.' :: (Text.encode f ++ Text.encode t)) :=
    .fraction (isDigits_encode hf) (Text.encode_ne_nil hne') ht
  rw [Text.encode_append, Text.encode_cons, Text.encode_append]
  exact .intro (isDigits_encode hw) (Text.encode_ne_nil hne) htail

/-- With a negative exponent there are places behind the point. -/
theorem isMagnitude_places {digits : List Char} (h : AllDigits digits) (hne : digits ≠ [])
    (e : Nat) : IsMagnitude (Text.encode (Decimal.places digits (.negSucc e))) := by
  simp only [Decimal.places]
  split
  · next hafter =>
    have hwhole : digits.take (digits.length - (e + 1)) ≠ [] := by
      simp only [ne_eq, List.take_eq_nil_iff, not_or]
      exact ⟨by omega, hne⟩
    have hfraction : digits.drop (digits.length - (e + 1)) ≠ [] := by
      simp only [ne_eq, List.drop_eq_nil_iff]
      omega
    rw [← List.append_nil (digits.drop _)]
    exact isMagnitude_point (fun c hc => h c (List.mem_of_mem_take hc)) hwhole
      (fun c hc => h c (List.mem_of_mem_drop hc)) hfraction .none
  · rw [← List.append_nil (List.replicate _ _ ++ digits)]
    exact isMagnitude_point (w := ['0']) (allDigits_replicate 1) (by decide)
      ((allDigits_replicate _).append h) (by simp [hne]) .none

/-- Without a negative exponent the one place behind the point is a zero. -/
theorem isMagnitude_whole {digits : List Char} (h : AllDigits digits) (hne : digits ≠ [])
    (e : Nat) : IsMagnitude (Text.encode (Decimal.places digits (.ofNat e) ++ ['.', '0'])) :=
  isMagnitude_point (f := ['0']) (t := []) (h.append (allDigits_replicate e))
    (List.append_ne_nil_of_left_ne_nil hne _) (allDigits_replicate 1) (by decide) .none

theorem isMagnitude_exponential {digits : List Char} (h : AllDigits digits) (hne : digits ≠ [])
    (power : Int) : IsMagnitude (Text.encode (Decimal.exponential digits power)) := by
  cases digits with
  | nil => exact absurd rfl hne
  | cons d ds =>
    have hd : AllDigits [d] := fun c hc => h c (List.mem_of_mem_take (i := 1) hc)
    have hds : AllDigits ds := fun c hc => h c (List.mem_cons_of_mem d hc)
    obtain ⟨t, ht, htext⟩ : ∃ t : List Char, IsPower (Text.encode t) ∧
        Decimal.exponential (d :: ds) power = d :: ((if ds = [] then [] else '.' :: ds) ++ t) := by
      cases power with
      | ofNat e =>
        exact ⟨_, isPower_exponent '+' (.inl rfl) e, by cases ds <;> rfl⟩
      | negSucc e =>
        exact ⟨_, isPower_exponent '-' (.inr rfl) (e + 1), by cases ds <;> rfl⟩
    rw [htext]
    by_cases hempty : ds = []
    · rw [if_pos hempty, List.nil_append, ← List.singleton_append, Text.encode_append]
      exact .intro (isDigits_encode hd) (Text.encode_ne_nil (by simp)) (.power ht)
    · rw [if_neg hempty]
      exact isMagnitude_point hd (by simp) hds hempty ht

/-- A number that is finite is written as one. -/
theorem isNumeral_fractional {x : Float} {text : List Char}
    (h : Decimal.fractional? x = some text) : IsNumeral (Text.encode text) := by
  obtain ⟨negative, cs, rfl, hcs⟩ : ∃ negative cs, text = Decimal.signed negative cs ∧
      IsMagnitude (Text.encode cs) := by
    unfold Decimal.fractional? at h
    split at h
    · cases h
    · cases h
    · next b hb =>
      dsimp only at h
      split at h
      · refine ⟨b.negative, ['0', '.', '0'], (Option.some.inj h).symm, ?_⟩
        exact isMagnitude_whole (allDigits_replicate 1) (by decide) 0
      · refine ⟨b.negative, _, (Option.some.inj h).symm, ?_⟩
        split
        · exact isMagnitude_exponential (allDigits_natural _) (natural_ne_nil _) _
        · split
          · next e he =>
            rw [he]
            exact isMagnitude_whole (allDigits_natural _) (natural_ne_nil _) e
          · next e he =>
            rw [he]
            exact isMagnitude_places (allDigits_natural _) (natural_ne_nil _) e
  cases negative with
  | false => exact .positive hcs
  | true => exact .negative hcs

end Sortie.Json
