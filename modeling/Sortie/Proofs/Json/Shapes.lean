import Sortie.Json.Shape
import Sortie.Proofs.Json.Pieces

/-!
# Shapes read what is written

A shape reads a written value (`Shape.Reads`) if it takes the text of the value at any level, behind
any gap, from the front of any text.  What it reads may be nothing, and need not be what was written:
a number that is not whole is read as `reread` says.  Of everything else there is one rule for each
form of value.
-/

namespace Sortie.Json

open Text (Bytes)

/-- What a number that is not whole is read as, once it is written. -/
def reread (x : Float) : Option Float :=
  (Shape.float.decode (Text.encode (numeral x))).toOption.bind float?

/-- With so many levels of brackets the shape takes the written value. -/
def Shape.Reads (shape : Shape) (levels : Nat) (j : Json) (j? : Option Json) : Prop :=
  ∀ depth, levels ≤ depth → ∀ level gap, IsGap gap →
    Takes (shape depth) (gap ++ Text.encode (j.pretty level)) j?

theorem Shape.Reads.congr {shape : Shape} {levels : Nat} {j : Json} {j? k? : Option Json}
    (h : shape.Reads levels j j?) (heq : j? = k?) : shape.Reads levels j k? :=
  heq ▸ h

theorem toOption_readWhole {α : Type} {reader : Reader α} {piece : Bytes} {a? : Option α}
    (h : Takes reader piece a?) : (readWhole reader piece).toOption = a? := by
  have htake := h [] ends_nil
  rw [List.append_nil] at htake
  show ((reader piece).bind fun r => _).toOption = a?
  cases hr : reader piece with
  | error fault =>
    rw [hr] at htake
    cases a? with
    | none => rfl
    | some a => cases htake
  | ok r =>
    rw [hr] at htake
    cases a? with
    | none => cases htake
    | some a =>
      obtain rfl : r = (a, []) := Option.some.inj htake
      rfl

/-- A whole text with nothing but the value. -/
theorem Shape.Reads.decode {shape : Shape} {levels : Nat} {j : Json} {j? : Option Json}
    (h : shape.Reads levels j j?) (hle : levels ≤ maxDepth) (level : Nat) :
    (shape.decode (Text.encode (j.pretty level))).toOption = j? :=
  toOption_readWhole (h maxDepth hle level [] isGap_nil)

/-! ### Words and texts -/

theorem takes_null {gap : Bytes} (hgap : IsGap gap) :
    Takes (value 0) (gap ++ Text.encode ['n', 'u', 'l', 'l']) (some .null) := by
  unfold value
  refine takes_peek hgap (b := ascii 'n') (by decide) ?_
  rw [if_neg (by decide)]
  unfold value.scalar
  rw [if_pos rfl]
  exact (takes_word ['n', 'u', 'l', 'l']).bind_some ends_nil (.pure _)

theorem takes_refuse_null {gap : Bytes} (hgap : IsGap gap) :
    Takes (refuse : Reader Json) (gap ++ Text.encode ['n', 'u', 'l', 'l']) none := by
  unfold refuse
  refine takes_peek hgap (b := ascii 'n') (by decide) ?_
  rw [if_neg (by decide)]
  exact (takes_null isGap_nil).bind_nil_some (.throw _ _)

theorem reads_bool {levels : Nat} (b : Bool) : Shape.bool.Reads levels (.bool b) (some (.bool b)) := by
  intro depth _ level gap hgap
  unfold Shape.bool
  cases b with
  | true =>
    refine takes_peek hgap (b := ascii 't') (by decide) ?_
    rw [if_pos (by decide)]
    unfold value
    refine takes_peek isGap_nil (b := ascii 't') (by decide) ?_
    rw [if_neg (by decide)]
    unfold value.scalar
    rw [if_neg (by decide), if_pos rfl]
    exact (takes_word ['t', 'r', 'u', 'e']).bind_some ends_nil (.pure _)
  | false =>
    refine takes_peek hgap (b := ascii 'f') (by decide) ?_
    rw [if_pos (by decide)]
    unfold value
    refine takes_peek isGap_nil (b := ascii 'f') (by decide) ?_
    rw [if_neg (by decide)]
    unfold value.scalar
    rw [if_neg (by decide), if_neg (by decide), if_pos rfl]
    exact (takes_word ['f', 'a', 'l', 's', 'e']).bind_some ends_nil (.pure _)

theorem reads_text {levels : Nat} (s : String) : Shape.text.Reads levels (.text s) (some (.text s)) := by
  intro depth _ level gap hgap
  unfold Shape.text
  refine takes_peek hgap (b := ascii '"') (by decide) ?_
  rw [if_pos rfl]
  unfold value
  refine takes_peek isGap_nil (b := ascii '"') (by decide) ?_
  rw [if_neg (by decide)]
  unfold value.scalar
  rw [if_neg (by decide), if_neg (by decide), if_neg (by decide), if_pos rfl]
  refine takes_drop ?_
  exact (takes_readText s).bind_nil_some (.pure _)

/-! ### Numbers -/

theorem not_space_of_digit {b : UInt8} (h : (digit? b).isSome = true) : isSpace b = false := by
  have hrange : 48 ≤ b.toNat := by
    unfold digit? at h
    split at h
    · next hb => exact hb.1
    · cases h
  have hne {c : UInt8} (hc : c.toNat < 48) : b ≠ c := by
    rintro rfl
    omega
  simp [isSpace, hne (c := 32) (by decide), hne (c := 9) (by decide), hne (c := 10) (by decide),
    hne (c := 13) (by decide)]

theorem exists_head_of_isNumeral {piece : Bytes} (h : IsNumeral piece) :
    ∃ b q, piece = b :: q ∧ isSpace b = false ∧ (b = ascii '-' ∨ (digit? b).isSome = true) := by
  cases h with
  | positive h =>
    obtain @⟨ds, t, hds, hne, -⟩ := h
    cases ds with
    | nil => exact absurd rfl hne
    | cons b ds =>
      have hb := hds b List.mem_cons_self
      exact ⟨b, ds ++ t, rfl, not_space_of_digit hb, .inr hb⟩
  | negative => exact ⟨ascii '-', _, rfl, by decide, .inl rfl⟩

theorem takes_anyNumber {piece gap : Bytes} {j? : Option Json} (hgap : IsGap gap)
    (h : IsNumeral piece) (hread : Takes readNumber piece j?) : Takes anyNumber (gap ++ piece) j? := by
  obtain ⟨b, q, rfl, hspace, hb⟩ := exists_head_of_isNumeral h
  unfold anyNumber
  refine takes_peek hgap hspace ?_
  rw [if_pos hb]
  exact hread

theorem isMagnitude_natural (n : Nat) : IsMagnitude (Text.encode (Decimal.natural n)) := by
  have h := IsMagnitude.intro (isDigits_encode (allDigits_natural n))
    (Text.encode_ne_nil (natural_ne_nil n)) (.power .none)
  rw [List.append_nil] at h
  exact h

theorem reads_upTo {levels n bound : Nat} (h : n ≤ bound) (hbits : n < 18446744073709551616) :
    (Shape.upTo bound).Reads levels (.ofNat n) (some (.ofNat n)) := by
  intro depth _ level gap hgap
  have hnumeral := IsNumeral.positive (isMagnitude_natural n)
  unfold Shape.upTo
  refine (takes_anyNumber hgap hnumeral (takes_natural hbits)).bind_nil_some ?_
  show Takes (check (n ≤ bound) (.int n)) [] _
  unfold check
  rw [if_pos (by simpa using h)]
  exact .pure _

/-- A number is taken from its numeral as whatever the numeral is read as. -/
theorem takes_float {text : List Char} {j? : Option Json} (hnumeral : IsNumeral (Text.encode text))
    (hread : Takes readNumber (Text.encode text) j?) (depth : Nat) {gap : Bytes} (hgap : IsGap gap) :
    Takes (Shape.float depth) (gap ++ Text.encode text) ((j?.bind float?).map .number) := by
  rw [Option.map_bind]
  refine (takes_anyNumber hgap hnumeral hread).bind_nil fun j _ => ?_
  cases hj : j.float? with
  | none => simp only [Function.comp_apply, hj]; exact .throw _ _
  | some x => simp only [Function.comp_apply, hj]; exact .pure _

/-- What is read from a number does not hang on what stands around it. -/
theorem exists_takes_float (x : Float) : ∃ x? : Option Float, ∀ depth gap, IsGap gap →
    Takes (Shape.float depth) (gap ++ Text.encode (numeral x)) (x?.map .number) := by
  unfold numeral
  cases htext : Decimal.fractional? x with
  | none =>
    refine ⟨none, fun depth gap hgap => ?_⟩
    have hany : Takes anyNumber (gap ++ Text.encode ['n', 'u', 'l', 'l']) none := by
      unfold anyNumber
      refine takes_peek hgap (b := ascii 'n') (by decide) ?_
      rw [if_neg (by decide)]
      exact takes_refuse_null isGap_nil
    exact hany.bind_nil_none
  | some text =>
    have hnumeral := isNumeral_fractional htext
    obtain ⟨j?, hread⟩ := exists_takes_readNumber hnumeral
    exact ⟨j?.bind float?, fun depth gap hgap => takes_float hnumeral hread depth hgap⟩

theorem reread_eq {x : Float} {x? : Option Float} (h : ∀ depth gap, IsGap gap →
    Takes (Shape.float depth) (gap ++ Text.encode (numeral x)) (x?.map .number)) :
    reread x = x? := by
  have hdecode : (Shape.float.decode (Text.encode (numeral x))).toOption = x?.map .number :=
    toOption_readWhole (h maxDepth [] isGap_nil)
  unfold reread
  rw [hdecode]
  cases x? <;> rfl

/-- The fraction of a number may be read differently, and so may an exponent. -/
theorem reads_float {levels : Nat} (x : Float) :
    Shape.float.Reads levels (.number x) ((reread x).map .number) := by
  obtain ⟨x?, hread⟩ := exists_takes_float x
  rw [reread_eq hread]
  exact fun depth _ _ gap hgap => hread depth gap hgap

/-- A number is read as whatever its numeral is. -/
theorem reread_of_takes {x : Float} {text : List Char} {j? : Option Json}
    (h : Decimal.fractional? x = some text) (hread : Takes readNumber (Text.encode text) j?) :
    reread x = j?.bind float? := by
  have hnumeral : numeral x = text := by
    unfold numeral
    rw [h]
    rfl
  refine reread_eq fun depth gap hgap => ?_
  rw [hnumeral]
  exact takes_float (isNumeral_fractional h) hread depth hgap

/-- A number that is not finite is written as nothing, and read as nothing. -/
theorem reread_of_not_finite {x : Float} (h : Decimal.fractional? x = none) : reread x = none := by
  unfold reread numeral
  rw [h]
  rfl

/-! ### What a value starts with -/

theorem isNumeral_integer (n : Int) : IsNumeral (Text.encode (Decimal.integer n)) := by
  cases n with
  | ofNat n => exact .positive (isMagnitude_natural n)
  | negSucc n => exact .negative (isMagnitude_natural (n + 1))

/-- No value starts with a blank or with the bracket that ends a list, and only nothing and a number
that is not finite start with the letter of nothing. -/
theorem exists_opening (level : Nat) (j : Json) :
    ∃ b q, Text.encode (j.pretty level) = b :: q ∧ isSpace b = false ∧ b ≠ ascii ']' ∧
      (b = ascii 'n' → j = .null ∨ ∃ x, j = .number x) := by
  have hnumeral {piece : Bytes} (h : IsNumeral piece) : ∃ b q, piece = b :: q ∧
      isSpace b = false ∧ b ≠ ascii ']' ∧ b ≠ ascii 'n' := by
    obtain ⟨b, q, hpiece, hspace, hb⟩ := exists_head_of_isNumeral h
    refine ⟨b, q, hpiece, hspace, ?_, ?_⟩ <;> rintro rfl <;> revert hb <;> decide
  cases j with
  | null => exact ⟨ascii 'n', _, rfl, by decide, by decide, fun _ => .inl rfl⟩
  | bool b =>
    cases b with
    | true => exact ⟨ascii 't', _, rfl, by decide, by decide, fun h => absurd h (by decide)⟩
    | false => exact ⟨ascii 'f', _, rfl, by decide, by decide, fun h => absurd h (by decide)⟩
  | int n =>
    obtain ⟨b, q, hpiece, hspace, hend, hn⟩ := hnumeral (isNumeral_integer n)
    exact ⟨b, q, hpiece, hspace, hend, fun h => absurd h hn⟩
  | number x =>
    unfold pretty numeral
    cases htext : Decimal.fractional? x with
    | none => exact ⟨ascii 'n', _, rfl, by decide, by decide, fun _ => .inr ⟨x, rfl⟩⟩
    | some text =>
      obtain ⟨b, q, hpiece, hspace, hend, hn⟩ := hnumeral (isNumeral_fractional htext)
      exact ⟨b, q, hpiece, hspace, hend, fun h => absurd h hn⟩
  | text s => exact ⟨ascii '"', _, rfl, by decide, by decide, fun h => absurd h (by decide)⟩
  | list js =>
    cases js with
    | nil => exact ⟨ascii '[', _, rfl, by decide, by decide, fun h => absurd h (by decide)⟩
    | cons j js => exact ⟨ascii '[', _, rfl, by decide, by decide, fun h => absurd h (by decide)⟩
  | object fs =>
    cases fs with
    | nil => exact ⟨ascii '{', _, rfl, by decide, by decide, fun h => absurd h (by decide)⟩
    | cons f fs => exact ⟨ascii '{', _, rfl, by decide, by decide, fun h => absurd h (by decide)⟩

theorem isGap_newLine (level : Nat) : IsGap (Text.encode (newLine level)) := by
  intro b hb
  obtain ⟨c, hc, hb⟩ := List.mem_flatMap.mp hb
  rcases List.mem_cons.mp hc with rfl | hc
  · obtain rfl := List.mem_singleton.mp hb
    decide
  · obtain rfl := List.eq_of_mem_replicate hc
    obtain rfl := List.mem_singleton.mp hb
    decide

theorem isGap_blank : IsGap [ascii ' '] := by
  intro b hb
  obtain rfl := List.mem_singleton.mp hb
  decide

/-! ### What may be left out -/

theorem reads_optional_null {levels : Nat} (shape : Shape) :
    (Shape.optional shape).Reads levels .null (some .null) := by
  intro depth _ level gap hgap
  unfold Shape.optional
  refine takes_peek hgap (b := ascii 'n') (by decide) ?_
  rw [if_pos rfl]
  exact takes_null isGap_nil

theorem reads_optional {shape : Shape} {levels : Nat} {j : Json} {j? : Option Json}
    (h : shape.Reads levels j j?) (hnull : j ≠ .null) (hnumber : ∀ x, j ≠ .number x) :
    (Shape.optional shape).Reads levels j j? := by
  intro depth hdepth level gap hgap
  obtain ⟨b, q, hpiece, hspace, -, hn⟩ := exists_opening level j
  have hb : b ≠ ascii 'n' := fun hb => by
    rcases hn hb with hj | ⟨x, hj⟩
    · exact hnull hj
    · exact hnumber x hj
  unfold Shape.optional
  rw [hpiece]
  refine takes_peek hgap hspace ?_
  rw [if_neg hb, ← hpiece]
  exact h depth hdepth level [] isGap_nil

theorem reads_ofOption {α : Type} {shape : Shape} {levels : Nat} {write : α → Json}
    {read? : α → Option Json} (a? : Option α)
    (h : ∀ a ∈ a?, shape.Reads levels (write a) (read? a)) (hnull : ∀ a, write a ≠ .null)
    (hnumber : ∀ a x, write a ≠ .number x) :
    (Shape.optional shape).Reads levels (.ofOption write a?) (a?.elim (some .null) read?) := by
  cases a? with
  | none => exact reads_optional_null shape
  | some a => exact reads_optional (h a rfl) (hnull a) (hnumber a)

/-! ### Lists -/

section

variable {α : Type} {f : Bool → Reader α} {gap q : Bytes} {b : UInt8} {a? : Option α}

theorem takes_moreItems_first (hgap : IsGap gap) (hspace : isSpace b = false) (hb : b ≠ ascii ']')
    (h : Takes (f true) (b :: q) a?) : Takes (moreItems true >>= f) (gap ++ b :: q) a? := by
  unfold moreItems
  rw [bind_assoc]
  refine takes_peek hgap hspace ?_
  rw [if_neg hb, if_pos rfl, pure_bind]
  exact h

theorem takes_moreItems_next (hgap : IsGap gap) (hspace : isSpace b = false) (hb : b ≠ ascii ']')
    (h : Takes (f true) (b :: q) a?) :
    Takes (moreItems false >>= f) (ascii ',' :: (gap ++ b :: q)) a? := by
  unfold moreItems
  rw [bind_assoc]
  refine takes_peek isGap_nil (by decide) ?_
  rw [if_neg (by decide), if_neg Bool.false_ne_true, if_pos rfl, bind_assoc]
  refine takes_drop ?_
  rw [bind_assoc]
  refine takes_peek hgap hspace ?_
  rw [if_neg hb, pure_bind]
  exact h

theorem takes_moreItems_end (first : Bool) (hgap : IsGap gap)
    (h : Takes (f false) (ascii ']' :: q) a?) :
    Takes (moreItems first >>= f) (gap ++ ascii ']' :: q) a? := by
  unfold moreItems
  rw [bind_assoc]
  refine takes_peek hgap (by decide) ?_
  rw [if_pos rfl, pure_bind]
  exact h

end

theorem ends_encode_prettyItems (level : Nat) (js : List Json) :
    Ends (Text.encode (prettyItems level js)) := by
  cases js with
  | nil => exact ends_cons (b := ascii '\n') (by decide) _
  | cons j js => exact ends_cons (b := ascii ',') (by decide) _

/-- What stands behind the bracket of a list. -/
def listBody (level : Nat) : List Json → List Char
  | [] => [']']
  | j :: js => newLine (level + 1) ++ pretty (level + 1) j ++ prettyItems level js

theorem encode_pretty_list (level : Nat) (js : List Json) :
    Text.encode (pretty level (.list js)) = ascii '[' :: Text.encode (listBody level js) := by
  cases js <;> rfl

section

variable {item : Reader Json} {rest other : Reader (List Json)} {level : Nat} {j : Json}
  {js : List Json} {j? : Option Json} {js? : Option (List Json)}

/-- One item and then the rest. -/
theorem takes_item (hitem : Takes item (Text.encode (j.pretty (level + 1))) j?)
    (hrest : Takes rest (Text.encode (prettyItems level js)) js?) :
    Takes (do let a ← item; let as ← rest; return a :: as)
      (Text.encode (j.pretty (level + 1)) ++ Text.encode (prettyItems level js))
      (do let a ← j?; let as ← js?; return a :: as) :=
  hitem.bind (ends_encode_prettyItems level js) fun _ _ => hrest.bind_nil fun _ _ => .pure _

theorem takes_first_item (hitem : Takes item (Text.encode (j.pretty (level + 1))) j?)
    (hrest : Takes rest (Text.encode (prettyItems level js)) js?) :
    Takes (do if ← moreItems true then let a ← item; let as ← rest; return a :: as else other)
      (Text.encode (listBody level (j :: js))) (do let a ← j?; let as ← js?; return a :: as) := by
  obtain ⟨b, q, hpiece, hspace, hb, -⟩ := exists_opening (level + 1) j
  have hboth := takes_item hitem hrest
  rw [listBody, Text.encode_append, Text.encode_append, List.append_assoc]
  rw [hpiece] at hboth ⊢
  refine takes_moreItems_first (isGap_newLine (level + 1)) hspace hb ?_
  rw [if_pos rfl]
  exact hboth

theorem takes_next_item (hitem : Takes item (Text.encode (j.pretty (level + 1))) j?)
    (hrest : Takes rest (Text.encode (prettyItems level js)) js?) :
    Takes (do if ← moreItems false then let a ← item; let as ← rest; return a :: as else other)
      (Text.encode (prettyItems level (j :: js)))
      (do let a ← j?; let as ← js?; return a :: as) := by
  obtain ⟨b, q, hpiece, hspace, hb, -⟩ := exists_opening (level + 1) j
  have hboth := takes_item hitem hrest
  show Takes _ (ascii ',' :: Text.encode (newLine (level + 1) ++ j.pretty (level + 1)
    ++ prettyItems level js)) _
  rw [Text.encode_append, Text.encode_append, List.append_assoc]
  rw [hpiece] at hboth ⊢
  refine takes_moreItems_next (isGap_newLine (level + 1)) hspace hb ?_
  rw [if_pos rfl]
  exact hboth

theorem takes_last_item {more : Reader (List Json)}
    (hother : Takes other [ascii ']'] js?) :
    Takes (do if ← moreItems false then more else other) (Text.encode (prettyItems level []))
      js? := by
  show Takes _ (Text.encode (newLine level ++ [']'])) _
  rw [Text.encode_append]
  exact takes_moreItems_end false (isGap_newLine level) hother

end

theorem length_lt_of_cons {c : Char} {p q : List Char} {n : Nat}
    (h : (Text.encode (c :: (p ++ q))).length < n + 1) : (Text.encode q).length < n := by
  have hc := List.length_pos_iff.mpr (Text.encodeChar_ne_nil c)
  rw [Text.encode_cons, Text.encode_append, List.length_append, List.length_append] at h
  omega

variable {α : Type} {write : α → Json} {read? : α → Option Json}

/-- The items behind the first, up to the closing bracket. -/
theorem takes_items {item : Reader Json} {level : Nat} {as : List α}
    (h : ∀ a ∈ as, Takes item (Text.encode ((write a).pretty (level + 1))) (read? a)) {n : Nat}
    (hn : (Text.encode (prettyItems level (as.map write))).length < n) :
    Takes (items item n false) (Text.encode (prettyItems level (as.map write)))
      (as.mapM read?) := by
  induction as generalizing n with
  | nil =>
    obtain ⟨n, rfl⟩ : ∃ k, n = k + 1 := ⟨n - 1, by omega⟩
    exact takes_last_item (takes_drop (.pure _))
  | cons a as ih =>
    obtain ⟨n, rfl⟩ : ∃ k, n = k + 1 := ⟨n - 1, by omega⟩
    rw [List.mapM_cons]
    refine takes_next_item (h a List.mem_cons_self)
      (ih (fun a' ha => h a' (List.mem_cons_of_mem a ha)) ?_)
    exact length_lt_of_cons (p := newLine (level + 1) ++ (write a).pretty (level + 1)) hn

theorem takes_enter {inside : Nat → Reader α} {depth : Nat} {b : UInt8} {q : Bytes}
    {a? : Option α} (h : Takes (inside depth) q a?) : Takes (enter (depth + 1) inside) (b :: q) a? :=
  takes_drop h

theorem reads_list {shape : Shape} {levels : Nat} {as : List α}
    (h : ∀ a ∈ as, shape.Reads levels (write a) (read? a)) :
    (Shape.list shape).Reads (levels + 1) (.list (as.map write)) ((as.mapM read?).map .list) := by
  intro depth hdepth level gap hgap
  obtain ⟨depth, rfl⟩ : ∃ k, depth = k + 1 := ⟨depth - 1, by omega⟩
  have hitem (a : α) (ha : a ∈ as) :
      Takes (shape depth) (Text.encode ((write a).pretty (level + 1))) (read? a) :=
    h a ha depth (by omega) (level + 1) [] isGap_nil
  rw [encode_pretty_list, Option.map_eq_bind]
  unfold Shape.list
  refine takes_peek hgap (by decide) ?_
  rw [if_pos rfl]
  refine takes_enter (takes_itemBound fun n hn => ?_)
  obtain ⟨n, rfl⟩ : ∃ k, n = k + 1 := ⟨n - 1, by omega⟩
  refine Takes.bind_nil ?_ fun js _ => .pure _
  cases as with
  | nil => exact takes_moreItems_end true isGap_nil (takes_drop (.pure _))
  | cons a as =>
    rw [List.mapM_cons]
    refine takes_first_item (hitem a List.mem_cons_self)
      (takes_items (fun a' ha => hitem a' (List.mem_cons_of_mem a ha)) ?_)
    exact length_lt_of_cons (c := '\n')
      (p := List.replicate (2 * (level + 1)) ' ' ++ (write a).pretty (level + 1)) hn

/-! ### Lists of a known length -/

theorem takes_closeList {gap : Bytes} (hgap : IsGap gap) (js : List Json) :
    Takes (do Shape.closeList; return js) (gap ++ [ascii ']']) (some js) := by
  unfold Shape.closeList
  rw [bind_assoc]
  refine takes_peek hgap (b := ascii ']') (by decide) ?_
  rw [if_pos rfl]
  exact takes_drop (.pure js)

theorem takes_sequence {shape : Shape} {depth level : Nat} {as : List α}
    (h : ∀ a ∈ as, Takes (shape depth) (Text.encode ((write a).pretty (level + 1))) (read? a)) :
    Takes (Shape.sequence depth false (List.replicate as.length (shape, none)))
      (Text.encode (prettyItems level (as.map write))) (as.mapM read?) := by
  induction as with
  | nil =>
    show Takes _ (Text.encode (newLine level ++ [']'])) _
    rw [Text.encode_append]
    exact takes_closeList (isGap_newLine level) []
  | cons a as ih =>
    rw [List.mapM_cons]
    exact takes_next_item (h a List.mem_cons_self)
      (ih fun a' ha => h a' (List.mem_cons_of_mem a ha))

theorem reads_exactly {shape : Shape} {levels : Nat} (as : List α)
    (h : ∀ a ∈ as, shape.Reads levels (write a) (read? a)) :
    (Shape.exactly as.length shape).Reads (levels + 1) (.list (as.map write))
      ((as.mapM read?).map .list) := by
  intro depth hdepth level gap hgap
  obtain ⟨depth, rfl⟩ : ∃ k, depth = k + 1 := ⟨depth - 1, by omega⟩
  have hitem (a : α) (ha : a ∈ as) :
      Takes (shape depth) (Text.encode ((write a).pretty (level + 1))) (read? a) :=
    h a ha depth (by omega) (level + 1) [] isGap_nil
  rw [encode_pretty_list, Option.map_eq_bind]
  unfold Shape.exactly
  refine takes_peek hgap (by decide) ?_
  rw [if_pos rfl]
  refine takes_enter (Takes.bind_nil ?_ fun js _ => .pure _)
  cases as with
  | nil => exact takes_closeList isGap_nil []
  | cons a as =>
    rw [List.mapM_cons]
    exact takes_first_item (hitem a List.mem_cons_self)
      (takes_sequence fun a' ha => hitem a' (List.mem_cons_of_mem a ha))

end Sortie.Json
