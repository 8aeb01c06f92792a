import Sortie.Proofs.Decimal.Places
import Sortie.Proofs.Decimal.Rounded
import Sortie.Proofs.Decimal.Whole
import Sortie.Proofs.Decimal.Written
import Sortie.Proofs.Json.Shapes

/-!
# Fractions as they are read

A number with a fraction or an exponent is read as its digits, taken as one count, times or over a
power of ten (`parsed`).  Its text shows these digits and that power (`Shows`, `written`), so it is
known what a number is read as (`reread_eq_scale`).  Three roundings stand behind that: of the count,
of the power and of their product or quotient.  Where the first two lose nothing the third goes to
the number that was written (`reread_of_isShort`).  Counts are such numbers (`reread_ofNat`).
-/

namespace Sortie.Json

open Text (Bytes)
open Decimal (Binary classify natural valueOf)

/-- What a count of so many tens is read as. -/
def parsed (negative : Bool) (n : Nat) (exponent : Int) : Option Json :=
  (scale 8 (Decimal.nearest false n 1) exponent).toOption.map
    fun x => .number (signedFloat negative x)

theorem takes_ofParts (negative : Bool) (n : Nat) (exponent : Int) :
    Takes (ofParts negative n exponent) [] (parsed negative n exponent) := by
  intro rest _
  unfold ofParts parsed
  cases scale 8 (Decimal.nearest false n 1) exponent <;> rfl

/-! ### Behind the digits -/

/-- A power of ten at the end of a numeral. -/
def powerText : Int → List Char
  | .ofNat e => 'e' :: '+' :: natural e
  | .negSucc e => 'e' :: '-' :: natural (e + 1)

theorem takes_exponentDigits (negative : Bool) (n : Nat) (start : Int) (down : Bool) {e : Nat}
    (he : e < 2147483648) :
    Takes (exponentDigits negative n start down) (Text.encode (natural e))
      (parsed negative n (limitExponent (if down then start - e else start + e))) := by
  obtain ⟨c, cs, hcs, -⟩ := exists_natural e
  have hdigits : AllDigits (c :: cs) := hcs ▸ allDigits_natural e
  have hvalue : Nat.ofDigitChars 10 cs (c.toNat - 48) = e := by
    have hall : Nat.ofDigitChars 10 (c :: cs) 0 = e := hcs ▸ Nat.ofDigitChars_ten_toDigits
    rw [Nat.ofDigitChars_cons, Nat.mul_zero, Nat.zero_add] at hall
    exact hall
  intro rest hr
  rw [hcs, encode_of_digits hdigits]
  simp only [List.map_cons, List.cons_append, exponentDigits,
    digit?_ascii (hdigits c List.mem_cons_self)]
  rw [gather_map_ascii (fun d hd => hdigits d (List.mem_cons_of_mem c hd)) hr.not_digit _ _
    (hvalue.symm ▸ he), hvalue]
  simp only [hr.not_digit]
  exact takes_ofParts negative n _ rest hr

theorem takes_exponentPart (negative : Bool) (n : Nat) (start : Int) {power : Int}
    (hpower : power.natAbs < 2147483648) :
    Takes (exponentPart negative n start) (Text.encode (powerText power).tail)
      (parsed negative n (limitExponent (start + power))) := by
  intro rest hr
  cases power with
  | ofNat e => exact takes_exponentDigits negative n start false hpower rest hr
  | negSucc e => exact takes_exponentDigits negative n start true hpower rest hr

theorem isPower_powerText (power : Int) : IsPower (Text.encode (powerText power)) := by
  cases power with
  | ofNat e => exact isPower_exponent '+' (.inl rfl) e
  | negSucc e => exact isPower_exponent '-' (.inr rfl) (e + 1)

theorem encode_powerText (power : Int) :
    Text.encode (powerText power) = ascii 'e' :: Text.encode (powerText power).tail := by
  cases power <;> rfl

theorem limitExponent_eq {e : Int} (he : e.natAbs < 2147483648) : limitExponent e = e := by
  unfold limitExponent
  omega

theorem takes_afterFraction_nil (negative : Bool) (n : Nat) (e : Int) :
    Takes (afterFraction negative n e) [] (parsed negative n e) := by
  intro rest hr
  cases rest with
  | nil => exact takes_ofParts negative n e [] hr
  | cons b rest =>
    simp only [List.nil_append, afterFraction, hr.not_exponentMark]
    exact takes_ofParts negative n e (b :: rest) hr

theorem takes_afterFraction_power (negative : Bool) (n : Nat) {e power : Int}
    (hpower : power.natAbs < 2147483648) (hsum : (e + power).natAbs < 2147483648) :
    Takes (afterFraction negative n e) (Text.encode (powerText power))
      (parsed negative n (e + power)) := by
  intro rest hr
  have htail := takes_exponentPart negative n e hpower rest hr
  rw [limitExponent_eq hsum] at htail
  rw [encode_powerText]
  exact htail

/-! ### Numerals -/

/-- A text that shows so many tens: its digits, and where the point and the exponent put them. -/
inductive Shows : List Char → Nat → Int → Prop
  | power {w : List Char} {power : Int} (hw : IsWhole w) (hpower : power.natAbs < 2147483648) :
      Shows (w ++ powerText power) (valueOf w) power
  | fraction {w f : List Char} (hw : IsWhole w) (hf : AllDigits f) (hne : f ≠ []) :
      Shows (w ++ '.' :: f) (valueOf (w ++ f)) (-f.length)
  | both {w f : List Char} {power : Int} (hw : IsWhole w) (hf : AllDigits f) (hne : f ≠ [])
      (hpower : power.natAbs < 2147483648) (hsum : (-f.length + power).natAbs < 2147483648) :
      Shows (w ++ '.' :: (f ++ powerText power)) (valueOf (w ++ f)) (-f.length + power)

theorem takes_fractionPart (negative : Bool) (n : Nat) {f : List Char} {t : Bytes}
    {j? : Option Json} (hf : AllDigits f) (hne : f ≠ []) (ht : IsPower t)
    (hfits : Nat.ofDigitChars 10 f n < 18446744073709551616)
    (hread : Takes (afterFraction negative (Nat.ofDigitChars 10 f n) (-f.length)) t j?) :
    Takes (fractionPart negative n 0) (Text.encode f ++ t) j? := by
  intro rest hr
  have hnot := ht.not_digit hr
  have hcount : f.length ≠ 0 := by simpa using hne
  rw [encode_of_digits hf, List.append_assoc]
  unfold fractionPart
  rw [gather_map_ascii hf hnot n 0 hfits]
  simp only [hnot, Bool.false_eq_true, if_false, Nat.zero_add, Int.zero_sub, if_neg hcount]
  exact hread rest hr

/-- The whole part, a point, and what follows it. -/
theorem takes_point (negative : Bool) {w f : List Char} {t : Bytes} {j? : Option Json}
    (hw : IsWhole w) (hf : AllDigits f) (hne : f ≠ []) (ht : IsPower t)
    (hfits : valueOf (w ++ f) < 18446744073709551616)
    (hread : Takes (afterFraction negative (valueOf (w ++ f)) (-f.length)) t j?) :
    Takes (unsignedNumber negative) (Text.encode (w ++ '.' :: f) ++ t) j? := by
  have happend : valueOf (w ++ f) = Nat.ofDigitChars 10 f (valueOf w) := Nat.ofDigitChars_append ..
  rw [happend] at hfits hread
  have hfits' : valueOf w < 18446744073709551616 :=
    Nat.lt_of_le_of_lt (le_ofDigitChars f _) hfits
  intro rest hr
  have hafter := takes_fractionPart negative (valueOf w) hf hne ht hfits hread rest hr
  rw [List.append_assoc] at hafter
  rw [Text.encode_append, Text.encode_cons, List.append_assoc, List.append_assoc,
    List.append_assoc, unsignedNumber_whole negative hw hfits' rfl]
  exact hafter

theorem Shows.takes_unsigned {text : List Char} {n : Nat} {e : Int} (h : Shows text n e)
    (hfits : n < 18446744073709551616) (negative : Bool) :
    Takes (unsignedNumber negative) (Text.encode text) (parsed negative n e) := by
  cases h with
  | @power w p hw hpower =>
    intro rest hr
    have hnot := (isPower_powerText e).not_digit hr
    have htail := takes_exponentPart negative (valueOf w) 0 hpower rest hr
    rw [Int.zero_add, limitExponent_eq hpower] at htail
    rw [Text.encode_append, List.append_assoc, unsignedNumber_whole negative hw hfits hnot,
      encode_powerText]
    exact htail
  | fraction hw hf hne =>
    rw [← List.append_nil (Text.encode _)]
    exact takes_point negative hw hf hne .none hfits (takes_afterFraction_nil _ _ _)
  | @both w f p hw hf hne hpower hsum =>
    rw [← List.cons_append, ← List.append_assoc, Text.encode_append]
    exact takes_point negative hw hf hne (isPower_powerText p) hfits
      (takes_afterFraction_power negative _ hpower hsum)

theorem Shows.exists_whole {text : List Char} {n : Nat} {e : Int} (h : Shows text n e) :
    ∃ w t, IsWhole w ∧ text = w ++ t := by
  cases h with
  | power hw | fraction hw | both hw => exact ⟨_, _, hw, rfl⟩

/-- A numeral is taken as the count of tens that it shows. -/
theorem Shows.takes {text : List Char} {n : Nat} {e : Int} (h : Shows text n e)
    (hfits : n < 18446744073709551616) (negative : Bool) :
    Takes readNumber (Text.encode (Decimal.signed negative text)) (parsed negative n e) := by
  have hread := h.takes_unsigned hfits negative
  intro rest hr
  cases negative with
  | true => exact hread rest hr
  | false =>
    obtain ⟨w, t, hw, rfl⟩ := h.exists_whole
    have hsame : readNumber (Text.encode (w ++ t) ++ rest)
        = unsignedNumber false (Text.encode (w ++ t) ++ rest) := by
      rw [Text.encode_append, List.append_assoc, readNumber_whole hw]
    exact hsame ▸ hread rest hr

/-! ### The layouts -/

theorem isWhole_take {w : List Char} (h : IsWhole w) {k : Nat} (hk : 0 < k) :
    IsWhole (w.take k) := by
  obtain ⟨hdigits, c, cs, rfl, hzero⟩ := h
  obtain ⟨k, rfl⟩ : ∃ j, k = j + 1 := ⟨k - 1, by omega⟩
  refine ⟨fun d hd => hdigits d (List.mem_of_mem_take hd), c, cs.take k, rfl, fun hc => ?_⟩
  rw [hzero hc, List.take_nil]

theorem isWhole_zero : IsWhole ['0'] :=
  isWhole_natural 0

/-- Zeros may follow a count that is not zero. -/
theorem isWhole_append {n : Nat} (hn : n ≠ 0) {ds : List Char} (hds : AllDigits ds) :
    IsWhole (natural n ++ ds) := by
  obtain ⟨c, cs, hcs, hzero⟩ := exists_natural n
  refine ⟨(allDigits_natural n).append hds, c, cs ++ ds, by rw [hcs]; rfl, fun hc => ?_⟩
  exact absurd (hzero hc).1 hn

theorem shows_places (n e : Nat) :
    Shows (Decimal.places (natural n) (.negSucc e)) n (.negSucc e) := by
  have hdigits := allDigits_natural n
  have hne := natural_ne_nil n
  simp only [Decimal.places]
  split
  · next hafter =>
    have hfraction : (natural n).drop ((natural n).length - (e + 1)) ≠ [] := by
      simp only [ne_eq, List.drop_eq_nil_iff]
      omega
    have hshows := Shows.fraction
      (isWhole_take (isWhole_natural n) (k := (natural n).length - (e + 1)) (by omega))
      (fun c hc => hdigits c (List.mem_of_mem_drop hc)) hfraction
    rw [List.take_append_drop, Decimal.valueOf_natural, List.length_drop,
      Nat.sub_sub_self hafter.le] at hshows
    exact hshows
  · next hafter =>
    have hshows := Shows.fraction isWhole_zero
      ((allDigits_replicate (e + 1 - (natural n).length)).append hdigits) (by simp [hne])
    have hvalue : valueOf (['0'] ++ (List.replicate (e + 1 - (natural n).length) '0' ++ natural n))
        = n := by
      rw [← List.append_assoc, ← List.replicate_one, List.replicate_append_replicate,
        Decimal.valueOf_zeros_append, Decimal.valueOf_natural]
    rw [hvalue, List.length_append, List.length_replicate,
      Nat.sub_add_cancel (not_lt.mp hafter)] at hshows
    exact hshows

theorem shows_whole {n : Nat} (hn : n ≠ 0) (e : Nat) :
    Shows (Decimal.places (natural n) (.ofNat e) ++ ['.', '0']) (n * 10 ^ (e + 1)) (-1) := by
  have hshows := Shows.fraction (isWhole_append hn (allDigits_replicate e)) (allDigits_replicate 1)
    (List.cons_ne_nil '0' [])
  have hvalue : valueOf (natural n ++ List.replicate e '0' ++ List.replicate 1 '0')
      = n * 10 ^ (e + 1) := by
    rw [List.append_assoc, List.replicate_append_replicate, Decimal.valueOf_append_zeros,
      Decimal.valueOf_natural]
  rw [hvalue] at hshows
  exact hshows

theorem shows_exponential {n : Nat} {power : Int} (hpower : power.natAbs < 2147483648)
    (hsum : (power - ((natural n).length - 1 : Nat)).natAbs < 2147483648) :
    Shows (Decimal.exponential (natural n) power) n (power - ((natural n).length - 1 : Nat)) := by
  have hvalue := Decimal.valueOf_natural n
  have hdigits := allDigits_natural n
  have hwhole := isWhole_take (isWhole_natural n) Nat.one_pos
  obtain ⟨d, ds, hds, -⟩ := exists_natural n
  rw [hds] at hvalue hdigits hwhole hsum ⊢
  have htext : Decimal.exponential (d :: ds) power
      = [d] ++ ((if ds = [] then [] else '.' :: ds) ++ powerText power) := by
    cases power <;> cases ds <;> rfl
  have hlength : power - ((d :: ds).length - 1 : Nat) = -ds.length + power := by
    rw [List.length_cons, Nat.add_sub_cancel]
    omega
  rw [hlength] at hsum
  rw [htext, hlength, ← hvalue]
  by_cases hempty : ds = []
  · subst hempty
    rw [if_pos rfl, show -(([] : List Char).length : Int) + power = power from Int.zero_add power]
    exact .power hwhole hpower
  · rw [if_neg hempty]
    exact .both hwhole (fun c hc => hdigits c (List.mem_cons_of_mem d hc)) hempty hpower hsum

/-! ### The decimal that is written -/

/-- The power of ten that the first digit of a number stands for. -/
def leadingPower (b : Binary) : Int :=
  (b.shortest .even).exponent + (natural (b.shortest .even).digits).length - 1

/-- The decimal that the text of a number shows.  A whole number has a zero behind the point, so
there the digits are ten times the number. -/
def written (b : Binary) : Decimal :=
  let d := b.shortest .even
  if leadingPower b < -5 ∨ 16 ≤ leadingPower b then d
  else match d.exponent with
    | .ofNat e => ⟨d.digits * 10 ^ (e + 1), -1⟩
    | .negSucc _ => d

theorem value_written (b : Binary) : (written b).value = (b.shortest .even).value := by
  unfold written
  dsimp only
  split
  · rfl
  · split
    · next e he =>
      unfold Decimal.value
      rw [he]
      simp only [Int.ofNat_eq_natCast, zpow_natCast, zpow_neg_one]
      push_cast
      field_simp
      ring
    · rfl

theorem covers_written {b : Binary} (hm : 0 < b.mantissa) : b.Covers (written b).value := by
  rw [value_written]
  exact Decimal.covers_shortest .even hm

theorem digits_le_written (b : Binary) : (b.shortest .even).digits ≤ (written b).digits := by
  unfold written
  dsimp only
  split
  · exact le_refl _
  · split
    · exact Nat.le_mul_of_pos_right _ (by positivity)
    · exact le_refl _

/-- The text of a number shows the decimal that is written. -/
theorem exists_shows_written {x : Float} {b : Binary} (hx : classify x = .finite b)
    (hm : 0 < b.mantissa) (hfits : (written b).digits < 18446744073709551616) :
    ∃ text, Decimal.fractional? x = some (Decimal.signed b.negative text) ∧
      Shows text (written b).digits (written b).exponent := by
  have hof := Decimal.isOf_of_classify hx
  obtain ⟨hd, hlow, hhigh⟩ :=
    Decimal.count_bounds hm hof.canonical hof.le (Decimal.covers_shortest .even hm)
  have hcount : (natural (b.shortest .even).digits).length ≤ 20 :=
    (Nat.length_toDigits_le_iff (by decide) (by decide)).mpr
      (Nat.lt_of_le_of_lt (digits_le_written b) (hfits.trans (by norm_num)))
  have hpos : 0 < (natural (b.shortest .even).digits).length := Nat.length_toDigits_pos
  rw [show Nat.toDigits 10 (b.shortest .even).digits = natural (b.shortest .even).digits from rfl]
    at hlow hhigh
  unfold Decimal.fractional?
  rw [hx]
  dsimp only
  rw [if_neg hm.ne']
  refine ⟨_, rfl, ?_⟩
  unfold written
  dsimp only
  rw [show (b.shortest .even).exponent + (natural (b.shortest .even).digits).length - 1
    = leadingPower b from rfl]
  have hpower : leadingPower b = (b.shortest .even).exponent
    + (natural (b.shortest .even).digits).length - 1 := rfl
  have hexponent : (b.shortest .even).exponent
      = leadingPower b - ((natural (b.shortest .even).digits).length - 1 : Nat) := by omega
  split
  · have hshows : Shows (Decimal.exponential (natural (b.shortest .even).digits) (leadingPower b))
        (b.shortest .even).digits
        (leadingPower b - ((natural (b.shortest .even).digits).length - 1 : Nat)) :=
      shows_exponential (by omega) (by omega)
    rwa [← hexponent] at hshows
  · cases he : (b.shortest .even).exponent with
    | ofNat e => exact shows_whole hd e
    | negSucc e =>
      show Shows _ (b.shortest .even).digits (b.shortest .even).exponent
      rw [he]
      exact shows_places _ e

/-- What a number is read as, once its digits fit in one count of 64 bits. -/
theorem reread_eq_scale {x : Float} {b : Binary} (hx : classify x = .finite b) (hm : 0 < b.mantissa)
    (hfits : (written b).digits < 18446744073709551616) :
    reread x = (scale 8 (Decimal.nearest false (written b).digits 1) (written b).exponent).toOption.map
      (signedFloat b.negative) := by
  obtain ⟨text, htext, hshows⟩ := exists_shows_written hx hm hfits
  rw [reread_of_takes htext (hshows.takes hfits b.negative)]
  unfold parsed
  cases scale 8 (Decimal.nearest false (written b).digits 1) (written b).exponent <;> rfl

/-! ### What loses nothing -/

theorem reads_tenTo {k : Nat} (hk : k ≤ 22) : Decimal.Reads (tenTo k) (10 ^ k) := by
  have hvalue : Decimal.scaled (5 ^ k) k = 10 ^ k := by
    unfold Decimal.scaled
    rw [zpow_natCast]
    push_cast
    rw [← mul_pow]
    norm_num
  have hfive : 5 ^ k < 2 ^ 53 :=
    Nat.lt_of_le_of_lt (Nat.pow_le_pow_right (by norm_num) hk) (by norm_num)
  rw [← hvalue]
  refine Decimal.reads_nearest (by positivity) hfive (by omega) (by omega) Nat.one_pos ?_
  rw [hvalue]
  simp

theorem reads_count {n : Nat} (hpos : 0 < n) (hn : n < 2 ^ 53) :
    Decimal.Reads (Decimal.nearest false n 1) n := by
  have hvalue : Decimal.scaled n 0 = n := by simp [Decimal.scaled]
  rw [← hvalue]
  refine Decimal.reads_nearest hpos hn (by norm_num) (by norm_num) Nat.one_pos ?_
  rw [hvalue]
  simp

/-- The digits of a decimal and its power of ten are numbers themselves. -/
def Exact (d : Decimal) : Prop :=
  d.digits < 2 ^ 53 ∧ -22 ≤ d.exponent ∧ d.exponent ≤ 22

instance (d : Decimal) : Decidable (Exact d) :=
  inferInstanceAs (Decidable (_ ∧ _ ∧ _))

/-- The product or the quotient is rounded to the number that covers the decimal. -/
theorem scale_of_covers {z : Float} {b : Binary} {d : Decimal} (hz : classify z = .finite b)
    (hsign : b.negative = false) (hm : 0 < b.mantissa) (hd : d.digits ≠ 0) (h : Exact d)
    (hcovers : b.Covers d.value) :
    scale 8 (Decimal.nearest false d.digits 1) d.exponent = .ok z := by
  obtain ⟨hdigits, hlow, hhigh⟩ := h
  have hpos := Nat.pos_of_ne_zero hd
  have hcount := reads_count hpos hdigits
  have hcountPos : (0 : ℚ) < d.digits := Nat.cast_pos.mpr hpos
  unfold Decimal.value at hcovers
  cases he : d.exponent with
  | ofNat k =>
    have hk : k ≤ 22 := by
      rw [he] at hhigh
      exact Int.ofNat_le.mp hhigh
    rw [he, Int.ofNat_eq_natCast, zpow_natCast] at hcovers
    have hproduct := hcount.mul_eq hcountPos (reads_tenTo hk) (by positivity) hz hsign hm
      hcovers
    have hfinite : z.isInf = false := by
      show (Decimal.parts z).isInf = false
      rw [Decimal.parts_of_classify hz hsign hm]
      rfl
    unfold scale
    rw [if_neg (by omega)]
    dsimp only
    rw [hproduct, hfinite]
    rfl
  | negSucc k =>
    rw [he, zpow_negSucc, ← div_eq_mul_inv] at hcovers
    have hquotient := hcount.div_eq hcountPos (reads_tenTo (by omega)) (by positivity) hz hsign hm
      hcovers
    unfold scale
    rw [if_pos (by omega), hquotient]

/-- A number apart from its sign. -/
theorem exists_signedFloat {x : Float} {b : Binary} (hx : classify x = .finite b)
    (hm : 0 < b.mantissa) :
    ∃ z, classify z = .finite ⟨false, b.mantissa, b.exponent⟩ ∧ signedFloat b.negative z = x := by
  cases hparts : Decimal.parts x with
  | notANumber | infinity s =>
    rw [Decimal.classify_eq, hparts] at hx
    cases hx
  | zero s =>
    rw [Decimal.classify_eq, hparts] at hx
    obtain rfl := Decimal.Class.finite.inj hx
    cases hm
  | finite s m e hpos =>
    rw [Decimal.classify_eq, hparts] at hx
    obtain rfl := Decimal.Class.finite.inj hx
    obtain ⟨hc, he⟩ := Decimal.canonical_of_parts hparts
    have hz := Decimal.parts_pack .positive hpos hc
    rw [if_pos he] at hz
    refine ⟨.ofModel (.pack (.finite .positive m e hpos)), ?_, ?_⟩
    · rw [Decimal.classify_eq, hz]
      rfl
    · have hx := Decimal.pack_parts x
      rw [hparts] at hx
      cases s with
      | positive => exact hx
      | negative =>
        show Float.ofModel (.pack (Decimal.parts _).neg) = x
        rw [hz]
        exact hx

/-- A number that is zero, or whose digits and whose power of ten are numbers themselves. -/
def isShort (x : Float) : Bool :=
  match classify x with
  | .finite b => b.mantissa = 0 || Exact (written b)
  | _ => false

/-- **A short number is read as it was written.** -/
theorem reread_of_isShort {x : Float} (h : isShort x = true) : reread x = some x := by
  unfold isShort at h
  split at h
  · next b hx =>
    rcases Nat.eq_zero_or_pos b.mantissa with hzero | hm
    · have hsame := Decimal.nearest_zero hx hzero 1
      rw [← hsame]
      cases b.negative <;> decide +kernel
    · rw [Bool.or_eq_true, decide_eq_true_iff, decide_eq_true_iff] at h
      have hexact := h.resolve_left hm.ne'
      obtain ⟨z, hz, hsigned⟩ := exists_signedFloat hx hm
      have hcovers : Binary.Covers ⟨false, b.mantissa, b.exponent⟩ (written b).value := by
        obtain ⟨hlow, hhigh, htie⟩ := covers_written hm
        exact ⟨hlow, hhigh, htie⟩
      have hof := Decimal.isOf_of_classify hx
      have hd := (Decimal.count_bounds hm hof.canonical hof.le (covers_written hm)).1
      rw [reread_eq_scale hx hm (hexact.1.trans (by norm_num)),
        scale_of_covers hz rfl hm hd hexact hcovers]
      exact congrArg some hsigned
  · cases h

/-! ### Counts -/

/-- A count is written with a zero behind the point. -/
theorem written_of_count {b : Binary} {n : Nat} (hpos : 0 < n) (hn : n < 2 ^ 52)
    (hb : Decimal.Canonical b.mantissa b.exponent) (hm : 0 < b.mantissa)
    (h : Decimal.scaled b.mantissa b.exponent = n) : written b = ⟨10 * n, -1⟩ := by
  obtain ⟨k, hk, hdigits⟩ : ∃ k : Nat, (b.shortest .even).exponent = .ofNat k ∧
      (b.shortest .even).digits * 10 ^ k = n := Decimal.shortest_of_count hpos hn hb hm h
  have hvalue : (b.shortest .even).value = n := by
    rw [Decimal.value, hk, Int.ofNat_eq_natCast, zpow_natCast]
    exact_mod_cast hdigits
  have hd : (b.shortest .even).digits ≠ 0 := by
    intro hzero
    rw [hzero, Nat.zero_mul] at hdigits
    omega
  have hcount : 0 < (natural (b.shortest .even).digits).length := Nat.length_toDigits_pos
  have hpower : leadingPower b = ((natural (b.shortest .even).digits).length : Int) - 1 + k := by
    unfold leadingPower
    rw [hk, Int.ofNat_eq_natCast]
    omega
  have hlimit : (10 : ℚ) ^ leadingPower b < 10 ^ (16 : ℤ) := by
    calc (10 : ℚ) ^ leadingPower b ≤ (b.shortest .even).value := by
          rw [hpower, ← Int.ofNat_eq_natCast k, ← hk]
          exact (Decimal.value_bounds hd).1
      _ = n := hvalue
      _ < 2 ^ 52 := by exact_mod_cast hn
      _ ≤ 10 ^ (16 : ℤ) := by norm_num
  have hhigh := (zpow_lt_zpow_iff_right₀ (by norm_num : (1 : ℚ) < 10)).mp hlimit
  unfold written
  dsimp only
  rw [if_neg (by omega), hk]
  dsimp only
  rw [pow_succ, ← Nat.mul_assoc, hdigits, Nat.mul_comm]

/-- A count is short up to a tenth of `2 ^ 53`. -/
theorem isShort_ofNat {n : Nat} (h : n ≤ 900719925474099) : isShort (Decimal.ofNat n) = true := by
  rcases Nat.eq_zero_or_pos n with rfl | hpos
  · decide
  have hn : n < 2 ^ 52 := by omega
  have hclass := Decimal.classify_ofNat hn hpos.ne'
  have hvalue := (Decimal.reads_of_classify hclass).value_eq (Decimal.reads_ofNat hn.le)
  have hwritten := written_of_count hpos hn (Decimal.isOf_of_classify hclass).canonical
    (Nat.mul_pos hpos (by positivity)) hvalue
  have hexact : Exact ⟨10 * n, -1⟩ := by
    refine ⟨?_, ?_, ?_⟩ <;> dsimp only <;> omega
  unfold isShort
  rw [hclass]
  dsimp only
  rw [hwritten, decide_eq_true hexact, Bool.or_true]

/-- **A count is read as it was written.** -/
theorem reread_ofNat {n : Nat} (h : n ≤ 900719925474099) :
    reread (Decimal.ofNat n) = some (Decimal.ofNat n) :=
  reread_of_isShort (isShort_ofNat h)

end Sortie.Json
