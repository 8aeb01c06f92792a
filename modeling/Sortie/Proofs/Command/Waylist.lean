import Sortie.Proofs.Command.Items
import Sortie.Proofs.Decimal.Written
import Sortie.Proofs.Text.Blank

/-!
# Waypoint lists are read back

Every field of a line is a number without a blank in it (`isField_of_mem`), so a list is taken apart
into the lines and fields it was put together from, and the numbers are those of its items
(`readItem_itemFields`).  What is read are the items of the sequence (`read_write_eq`), and these are
the commands again.
-/

namespace Sortie

open Decimal (natural positional)
open Json (AllDigits)
open Text (IsField)

/-! ### Numbers as fields -/

theorem Text.isBlank_of_isDigit {c : Char} (h : c.isDigit = true) : isBlank c = false := by
  have hrange := Json.range_of_isDigit h
  have hspace : c ≠ ' ' := by
    rintro rfl
    cases h
  simp only [isBlank, wideBlanks, hspace, List.any_cons, List.any_nil, Bool.or_eq_false_iff,
    Bool.and_eq_false_iff, decide_eq_false_iff_not, not_false_eq_true, and_true, true_and]
  omega

theorem isField_of_all {cs : List Char} (hne : cs ≠ []) (h : cs.all (!Text.isBlank ·) = true) :
    IsField cs :=
  ⟨hne, fun c hc => by simpa using List.all_eq_true.mp h c hc⟩

theorem isField_of_allDigits {cs : List Char} (h : AllDigits cs) (hne : cs ≠ []) : IsField cs :=
  ⟨hne, fun c hc => Text.isBlank_of_isDigit (h c hc)⟩

theorem isField_natural (n : Nat) : IsField (natural n) :=
  isField_of_allDigits (Json.allDigits_natural n) (Json.natural_ne_nil n)

theorem isField_signed {cs : List Char} (h : IsField cs) (negative : Bool) :
    IsField (Decimal.signed negative cs) := by
  cases negative with
  | false => exact h
  | true =>
    refine ⟨List.cons_ne_nil _ _, fun c hc => ?_⟩
    rcases List.mem_cons.mp hc with rfl | hc
    · decide
    · exact h.not_blank c hc

theorem isField_point {w f : List Char} (hw : AllDigits w) (hf : AllDigits f) :
    IsField (w ++ '.' :: f) := by
  refine ⟨List.append_ne_nil_of_right_ne_nil _ (List.cons_ne_nil _ _), fun c hc => ?_⟩
  rcases List.mem_append.mp hc with hc | hc
  · exact Text.isBlank_of_isDigit (hw c hc)
  · rcases List.mem_cons.mp hc with rfl | hc
    · decide
    · exact Text.isBlank_of_isDigit (hf c hc)

theorem isField_places (n : Nat) (e : Int) : IsField (Decimal.places (natural n) e) := by
  have hdigits := Json.allDigits_natural n
  cases e with
  | ofNat e =>
    exact isField_of_allDigits (hdigits.append (Json.allDigits_replicate e))
      (List.append_ne_nil_of_left_ne_nil (Json.natural_ne_nil n) _)
  | negSucc e =>
    simp only [Decimal.places]
    split
    · exact isField_point (fun c hc => hdigits c (List.mem_of_mem_take hc))
        (fun c hc => hdigits c (List.mem_of_mem_drop hc))
    · exact isField_point (w := ['0']) (Json.allDigits_replicate 1)
        ((Json.allDigits_replicate _).append hdigits)

theorem isField_positional (x : Float) : IsField (positional x) := by
  unfold positional
  split
  · exact isField_of_all (by decide) (by decide)
  · exact isField_signed (isField_of_all (by decide) (by decide)) _
  · split
    · exact isField_signed (isField_of_all (by decide) (by decide)) _
    · exact isField_signed (isField_places _ _) _

namespace Waylist

theorem isField_flag (b : Bool) : IsField (flag b) := by
  cases b <;> exact isField_of_all (by decide) (by decide)

/-! ### Lines -/

theorem isField_of_mem {index : Nat} {i : Item} {f : List Char} (h : f ∈ itemFields index i) :
    IsField f := by
  simp only [itemFields, List.mem_cons, List.not_mem_nil, or_false] at h
  rcases h with rfl | rfl | rfl | rfl | rfl | rfl | rfl | rfl | rfl | rfl | rfl | rfl
  all_goals first
    | exact isField_natural _
    | exact isField_flag _
    | exact isField_positional _

/-- The line of an item without its line feed. -/
def line (index : Nat) (i : Item) : List Char :=
  List.intercalate ['\t'] (itemFields index i)

theorem fields_line (index : Nat) (i : Item) : Text.fields (line index i) = itemFields index i :=
  Text.fields_intercalate (fun _ hf => isField_of_mem hf) (by decide)

/-- A list as its lines. -/
def lines (is : List Item) : List (List Char) :=
  header :: is.zipIdx.map fun (i, index) => line index i

theorem write_eq (s : Sequence) : write s = (lines s.toItems).flatMap (· ++ ['\n']) := by
  unfold write lines
  rw [List.flatMap_cons, List.append_assoc, List.singleton_append, List.flatMap_map]
  rfl

/-- A line with something on it, free of line feeds and with no blank at either end. -/
structure IsLine (l : List Char) : Prop where
  ne_nil : l ≠ []
  not_mem : '\n' ∉ l
  trimmed : Text.IsTrimmed l

theorem isLine_line (index : Nat) (i : Item) : IsLine (line index i) where
  ne_nil := Text.intercalate_ne_nil (fun _ hf => isField_of_mem hf) (List.cons_ne_nil _ _)
  not_mem := Text.not_mem_intercalate (by decide) fun f hf hmem =>
    absurd ((isField_of_mem hf).not_blank _ hmem) (by decide)
  trimmed := Text.isTrimmed_intercalate fun _ hf => isField_of_mem hf

theorem isLine_header : IsLine header where
  ne_nil := by decide
  not_mem := by decide
  trimmed := by
    constructor
    · intro c hc
      obtain rfl : 'Q' = c := Option.some.inj hc
      decide
    · intro c hc
      obtain rfl : '0' = c := Option.some.inj hc
      decide

theorem isLine_of_mem {is : List Item} {l : List Char} (h : l ∈ lines is) : IsLine l := by
  rcases List.mem_cons.mp h with rfl | h
  · exact isLine_header
  · obtain ⟨⟨i, index⟩, -, rfl⟩ := List.mem_map.mp h
    exact isLine_line index i

theorem numberedLines_flatMap {ls : List (List Char)} (h : ∀ l ∈ ls, IsLine l) :
    numberedLines (ls.flatMap (· ++ ['\n'])) = (ls.zipIdx 1).map Prod.swap := by
  unfold numberedLines
  rw [Text.splitLines_flatMap fun l hl => (h l hl).not_mem]
  generalize 1 = n
  induction ls generalizing n with
  | nil => rfl
  | cons l ls ih =>
    have hl := h l List.mem_cons_self
    have hkept : (if (Text.trim l).isEmpty then none else some (n, Text.trim l)) = some (n, l) := by
      rw [hl.trimmed.trim_eq, if_neg]
      simpa using hl.ne_nil
    rw [List.zipIdx_cons, List.filterMap_cons, List.map_cons,
      ih fun k hk => h k (List.mem_cons_of_mem l hk)]
    simp only [hkept]
    rfl

/-! ### Items -/

theorem bounded?_flag (b : Bool) : Decimal.bounded? 255 (flag b) = some b.toNat := by
  cases b <;> decide

/-- The fields of an item are those of that item. -/
theorem readItem_itemFields (number index : Nat) {i : Item} (h : i.Fits) :
    readItem number (itemFields index i) = .ok i := by
  obtain ⟨command, frame, ⟨a, b, c, d⟩, x, y, z, autocontinue⟩ := i
  have hcommand := Decimal.bounded?_natural h.1
  have hframe := Decimal.bounded?_natural h.2
  dsimp only at hcommand hframe
  have hlength : ¬ (itemFields index ⟨command, frame, ⟨a, b, c, d⟩, x, y, z, autocontinue⟩).length
      ≠ 12 := not_not.mpr rfl
  unfold readItem
  rw [if_neg hlength]
  simp only [itemFields, readField, List.getElem?_cons_succ, List.getElem?_cons_zero,
    Option.getD_some, bounded?_flag, hcommand, hframe, Decimal.float?_positional]
  cases autocontinue <;> rfl

theorem mapM_readItem (is : List Item) (h : ∀ i ∈ is, i.Fits) (index number : Nat) :
    (((is.zipIdx index).map fun (i, index) => line index i).zipIdx number |>.map Prod.swap).mapM
      (fun (number, l) => readItem number (Text.fields l)) = .ok is := by
  induction is generalizing index number with
  | nil => rfl
  | cons i is ih =>
    have hhead := readItem_itemFields number index (h i List.mem_cons_self)
    have htail := ih (fun j hj => h j (List.mem_cons_of_mem i hj)) (index + 1) (number + 1)
    rw [List.zipIdx_cons, List.map_cons, List.zipIdx_cons, List.map_cons, List.mapM_cons, htail]
    show (readItem number (Text.fields (line index i)) >>= _) = _
    rw [fields_line, hhead]
    rfl

/-- What is read from the text of a sequence are its items. -/
theorem read_write_eq (s : Sequence) : read (write s) = Sequence.ofItems s.toItems := by
  have hlines : numberedLines (write s) = (1, header) ::
      ((s.toItems.zipIdx.map fun (i, index) => line index i).zipIdx 2).map Prod.swap := by
    rw [write_eq, numberedLines_flatMap fun _ hl => isLine_of_mem hl]
    rfl
  have hitems := mapM_readItem s.toItems (by
    intro i hi
    obtain ⟨c, -, rfl⟩ := List.mem_map.mp hi
    exact c.fits_toItem) 0 2
  have hheader : headerStart.isPrefixOf header = true := by decide
  unfold read
  rw [hlines]
  dsimp only
  rw [if_pos hheader, hitems]
  rfl

/-- **A waypoint list reads as the sequence it was written from.** -/
theorem reads_as_written {s : Sequence} (h : s.Fits) : read (write s) = .ok s :=
  (read_write_eq s).trans (Sequence.ofItems_toItems h)

/-- Zeros keep their signs, and what has no bounds and the largest counts are read as well. -/
theorem reads_as_written_extremes :
    let s : Sequence := [.waypoint ⟨-0.0, 1.0 / 0.0⟩ (-1.0 / 0.0) (-0.0) 0.1 .absolute,
      .view (.target 4294967295), .startPhotos (1.0 / 0.0) 4294967295,
      .stillMode 4294967295 (-0.0), .returnToLaunch]
    read (write s) = .ok s := by
  have hcount : 4294967295 ≤ 4294967295 := Nat.le_refl _
  exact reads_as_written <| .cons trivial <| .cons hcount <| .cons hcount <| .cons hcount <|
    .cons trivial .nil

end Waylist

end Sortie
