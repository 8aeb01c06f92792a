import Sortie.Decimal.Layout
import Sortie.Proofs.Decimal.Shortest
import Sortie.Proofs.Json.Numbers

/-!
# Written numbers are read

A numeral keeps the value of the decimal whose places it writes (`numeral?_places`), and the shortest
decimal of a number reads as that number.  So every number is had back from its text
(`float?_positional`), those that are not finite from their words, and so is every count within its
bound (`bounded?_natural`).
-/

namespace Sortie.Decimal

open Json (AllDigits allDigits_natural allDigits_replicate exists_natural natural_ne_nil)

theorem valueOf_natural (n : ℕ) : valueOf (natural n) = n :=
  Nat.ofDigitChars_ten_toDigits

theorem valueOf_append_zeros (cs : List Char) (k : ℕ) :
    valueOf (cs ++ List.replicate k '0') = valueOf cs * 10 ^ k := by
  show Nat.ofDigitChars 10 (cs ++ List.replicate k '0') 0 = Nat.ofDigitChars 10 cs 0 * 10 ^ k
  rw [Nat.ofDigitChars_append, Nat.ofDigitChars_replicate_zero, mul_comm]

theorem valueOf_zeros_append (k : ℕ) (cs : List Char) :
    valueOf (List.replicate k '0' ++ cs) = valueOf cs := by
  show Nat.ofDigitChars 10 (List.replicate k '0' ++ cs) 0 = Nat.ofDigitChars 10 cs 0
  rw [Nat.ofDigitChars_append, Nat.ofDigitChars_replicate_zero, mul_zero]

/-! ### Numerals -/

theorem numeral?_whole {w : List Char} (hw : AllDigits w) (hne : w ≠ []) :
    numeral? w = some ⟨valueOf w, 0⟩ := by
  have htake : w.takeWhile Char.isDigit = w := List.takeWhile_eq_self_iff.mpr hw
  have hdrop : w.dropWhile Char.isDigit = [] := List.dropWhile_eq_nil_iff.mpr hw
  simp [numeral?, htake, hdrop, hne, power?]

theorem numeral?_point {w f : List Char} (hw : AllDigits w) (hne : w ≠ []) (hf : AllDigits f) :
    numeral? (w ++ '.' :: f) = some ⟨valueOf (w ++ f), -f.length⟩ := by
  have htake : (w ++ '.' :: f).takeWhile Char.isDigit = w := by
    rw [List.takeWhile_append_of_pos hw, List.takeWhile_cons_of_neg (by decide), List.append_nil]
  have hdrop : (w ++ '.' :: f).dropWhile Char.isDigit = '.' :: f := by
    rw [List.dropWhile_append_of_pos hw, List.dropWhile_cons_of_neg (by decide)]
  have htake' : f.takeWhile Char.isDigit = f := List.takeWhile_eq_self_iff.mpr hf
  have hdrop' : f.dropWhile Char.isDigit = [] := List.dropWhile_eq_nil_iff.mpr hf
  simp [numeral?, htake, hdrop, htake', hdrop', hne, power?]

/-- The places of a decimal read as a decimal of the same value. -/
theorem numeral?_places (n : ℕ) (e : ℤ) :
    ∃ d, numeral? (places (natural n) e) = some d ∧ d.value = value ⟨n, e⟩ := by
  have hdigits := allDigits_natural n
  have hne := natural_ne_nil n
  cases e with
  | ofNat e =>
    refine ⟨_, numeral?_whole (hdigits.append (allDigits_replicate e))
      (List.append_ne_nil_of_left_ne_nil hne _), ?_⟩
    have hvalue : valueOf (places (natural n) (.ofNat e)) = n * 10 ^ e :=
      (valueOf_append_zeros _ e).trans (by rw [valueOf_natural])
    rw [hvalue]
    simp [value]
  | negSucc e =>
    simp only [places]
    split
    · next hafter =>
      refine ⟨_, numeral?_point (fun c hc => hdigits c (List.mem_of_mem_take hc)) ?_
        (fun c hc => hdigits c (List.mem_of_mem_drop hc)), ?_⟩
      · simp only [ne_eq, List.take_eq_nil_iff, not_or]
        exact ⟨by omega, hne⟩
      · rw [List.take_append_drop, valueOf_natural, List.length_drop,
          Nat.sub_sub_self hafter.le]
        rfl
    · next hafter =>
      refine ⟨_, numeral?_point (w := ['0']) (allDigits_replicate 1) (by decide)
        ((allDigits_replicate _).append hdigits), ?_⟩
      have hvalue : valueOf (['0'] ++ (List.replicate (e + 1 - (natural n).length) '0' ++ natural n))
          = n := by
        rw [← List.append_assoc, ← List.replicate_one, List.replicate_append_replicate,
          valueOf_zeros_append, valueOf_natural]
      rw [hvalue, List.length_append, List.length_replicate, Nat.sub_add_cancel (not_lt.mp hafter)]
      rfl

theorem exists_places (n : ℕ) (e : ℤ) :
    ∃ c cs, places (natural n) e = c :: cs ∧ c.isDigit = true := by
  obtain ⟨c, cs, hcs, -⟩ := exists_natural n
  have hc : c.isDigit = true := allDigits_natural n c (hcs ▸ List.mem_cons_self)
  rw [hcs]
  cases e with
  | ofNat e => exact ⟨c, _, rfl, hc⟩
  | negSucc e =>
    simp only [places]
    split
    · next hafter =>
      obtain ⟨k, hk⟩ : ∃ k, (c :: cs).length - (e + 1) = k + 1 := ⟨_, (by omega :
        (c :: cs).length - (e + 1) = (c :: cs).length - (e + 1) - 1 + 1)⟩
      rw [hk]
      exact ⟨c, _, rfl, hc⟩
    · exact ⟨'0', _, rfl, rfl⟩

theorem splitSign_signed (negative : Bool) {c : Char} (hc : c.isDigit = true) (cs : List Char) :
    splitSign (signed negative (c :: cs)) = (negative, c :: cs) := by
  cases negative with
  | true => rfl
  | false =>
    unfold signed splitSign
    rw [if_neg Bool.false_ne_true]
    split
    · next heq =>
      obtain ⟨rfl, -⟩ := List.cons.inj heq
      cases hc
    · next heq =>
      obtain ⟨rfl, -⟩ := List.cons.inj heq
      cases hc
    · rfl

theorem float?_signed {negative : Bool} {c : Char} {cs : List Char} {d : Decimal}
    (hc : c.isDigit = true) (h : numeral? (c :: cs) = some d) :
    float? (signed negative (c :: cs)) = some (d.toFloat negative) := by
  unfold float?
  rw [splitSign_signed negative hc]
  dsimp only
  rw [h]

/-- **Every number is read from its text.** -/
theorem float?_positional (x : Float) : float? (positional x) = some x := by
  unfold positional
  split
  · next h =>
    rw [← undefined_of_classify h]
    rfl
  · next negative h =>
    rw [← infinity_of_classify h]
    cases negative <;> rfl
  · next b h =>
    split
    · next hzero =>
      have hnumeral : numeral? ['0'] = some ⟨0, 0⟩ := by decide
      rw [float?_signed rfl hnumeral]
      exact congrArg some (nearest_zero h hzero 1)
    · next hm =>
      have hpos := Nat.pos_of_ne_zero hm
      dsimp only
      obtain ⟨d, hd, hvalue⟩ := numeral?_places (b.shortest .up).digits (b.shortest .up).exponent
      obtain ⟨c, cs, hcs, hc⟩ := exists_places (b.shortest .up).digits (b.shortest .up).exponent
      rw [hcs] at hd ⊢
      rw [float?_signed hc hd]
      exact congrArg some (toFloat_of_covers h hpos (hvalue ▸ covers_shortest .up hpos))

/-- A count is read from its digits, as long as it keeps to the bound. -/
theorem bounded?_natural {bound n : ℕ} (h : n ≤ bound) : bounded? bound (natural n) = some n := by
  have hdigits := allDigits_natural n
  have hvalue := valueOf_natural n
  obtain ⟨c, cs, hcs, -⟩ := exists_natural n
  rw [hcs] at hdigits hvalue ⊢
  have hall : (c :: cs).all Char.isDigit = true := List.all_eq_true.mpr hdigits
  unfold bounded?
  split
  · next heq =>
    obtain ⟨rfl, -⟩ := List.cons.inj heq
    cases hdigits '+' List.mem_cons_self
  · simp [hall, hvalue, h]

end Sortie.Decimal
