import Mathlib
import Sortie.Text.Blank

/-!
# Joined lines and fields are split again

A field is a piece that is not empty and free of blanks (`IsField`).  Fields joined by a blank are
the fields of the text (`fields_intercalate`), and lines that are each ended by a line feed are its
lines (`splitLines_flatMap`).  A text with no blank at either end is trimmed already
(`IsTrimmed.trim_eq`), and joined fields are such a text.  Trimming leaves the fields of any text as
they are (`fields_trim`), and nothing of a text that is all blanks (`trim_eq_nil_iff`).
-/

namespace Sortie.Text

/-- Not empty, and free of blanks. -/
structure IsField (cs : List Char) : Prop where
  ne_nil : cs ≠ []
  not_blank : ∀ c ∈ cs, isBlank c = false

variable {b c : Char} {f cs : List Char}

/-! ### Fields -/

/-- A field goes on up to the next blank. -/
theorem fields_cons_cons {d : Char} {rest : List (List Char)} (hc : isBlank c = false)
    (hd : isBlank d = false) (h : fields (d :: cs) = f :: rest) :
    fields (c :: d :: cs) = (c :: f) :: rest := by
  rw [fields.eq_def]
  simp only [hc, hd, h, Bool.false_eq_true, if_false]

namespace IsField

theorem head (h : IsField (c :: cs)) : isBlank c = false :=
  h.not_blank c List.mem_cons_self

theorem tail {d : Char} (h : IsField (c :: d :: cs)) : IsField (d :: cs) :=
  ⟨List.cons_ne_nil d cs, fun e he => h.not_blank e (List.mem_cons_of_mem c he)⟩

/-- A field ends at the first blank. -/
theorem fields_append_blank (h : IsField f) (hb : isBlank b = true) (rest : List Char) :
    fields (f ++ b :: rest) = f :: fields rest := by
  induction f with
  | nil => exact absurd rfl h.ne_nil
  | cons c f ih =>
    cases f with
    | nil => simp [fields, h.head, hb]
    | cons d f => exact fields_cons_cons h.head h.tail.head (ih h.tail)

theorem fields_eq (h : IsField f) : fields f = [f] := by
  induction f with
  | nil => exact absurd rfl h.ne_nil
  | cons c f ih =>
    cases f with
    | nil => simp [fields, h.head]
    | cons d f => exact fields_cons_cons h.head h.tail.head (ih h.tail)

end IsField

/-- Fields joined by a blank are split there. -/
theorem fields_intercalate {fs : List (List Char)} (h : ∀ f ∈ fs, IsField f)
    (hb : isBlank b = true) : fields (List.intercalate [b] fs) = fs := by
  induction fs with
  | nil => rfl
  | cons f fs ih =>
    have hf := h f List.mem_cons_self
    have hfs := ih fun g hg => h g (List.mem_cons_of_mem f hg)
    cases fs with
    | nil => simpa using hf.fields_eq
    | cons g fs =>
      rw [List.intercalate_cons_cons, List.append_assoc, List.singleton_append,
        hf.fields_append_blank hb, hfs]

theorem not_mem_intercalate {fs : List (List Char)} (hc : c ≠ b) (h : ∀ f ∈ fs, c ∉ f) :
    c ∉ List.intercalate [b] fs := by
  induction fs with
  | nil => simp
  | cons f fs ih =>
    have hf := h f List.mem_cons_self
    have hfs := ih fun g hg => h g (List.mem_cons_of_mem f hg)
    cases fs with
    | nil => simpa using hf
    | cons g fs => simp [List.intercalate_cons_cons, hf, hc, hfs]

/-! ### Blanks around fields -/

theorem fields_cons_of_blank (h : isBlank b = true) (cs : List Char) :
    fields (b :: cs) = fields cs := by
  rw [fields.eq_def]
  simp only [h, if_true]

theorem fields_dropWhile (cs : List Char) : fields (cs.dropWhile isBlank) = fields cs := by
  induction cs with
  | nil => rfl
  | cons c cs ih =>
    cases hc : isBlank c with
    | false => rw [List.dropWhile_cons_of_neg (by simp [hc])]
    | true => rw [List.dropWhile_cons_of_pos hc, ih, fields_cons_of_blank hc]

theorem fields_eq_nil (h : ∀ c ∈ cs, isBlank c = true) : fields cs = [] := by
  rw [← fields_dropWhile, List.dropWhile_eq_nil_iff.mpr h]
  rfl

theorem fields_append_of_blank {bs : List Char} (h : ∀ b ∈ bs, isBlank b = true)
    (cs : List Char) : fields (cs ++ bs) = fields cs := by
  induction cs with
  | nil => exact fields_eq_nil h
  | cons c cs ih =>
    cases cs with
    | nil =>
      cases bs with
      | nil => rfl
      | cons b bs =>
        have hb := h b List.mem_cons_self
        have hbs := fields_eq_nil fun b' hb' => h b' (List.mem_cons_of_mem b hb')
        simp [fields, hb, hbs]
    | cons d cs =>
      rw [List.cons_append] at ih
      rw [List.cons_append, List.cons_append, fields.eq_def (c :: _), fields.eq_def (c :: d :: cs)]
      simp only [ih]

/-! ### Lines -/

theorem splitLines_append {l : List Char} (h : '\n' ∉ l) (rest : List Char) :
    splitLines (l ++ '\n' :: rest) = l :: splitLines rest := by
  induction l with
  | nil => simp [splitLines]
  | cons c l ih =>
    have hc : c ≠ '\n' := fun hc => h (hc ▸ List.mem_cons_self)
    have hl := ih fun hl => h (List.mem_cons_of_mem c hl)
    simp [splitLines, hc, hl]

/-- Lines that are each ended by a line feed are the lines of their text. -/
theorem splitLines_flatMap {ls : List (List Char)} (h : ∀ l ∈ ls, '\n' ∉ l) :
    splitLines (ls.flatMap (· ++ ['\n'])) = ls := by
  induction ls with
  | nil => rfl
  | cons l ls ih =>
    rw [List.flatMap_cons, List.append_assoc, List.singleton_append,
      splitLines_append (h l List.mem_cons_self),
      ih fun k hk => h k (List.mem_cons_of_mem l hk)]

/-! ### Ends -/

/-- There is no blank at either end. -/
structure IsTrimmed (cs : List Char) : Prop where
  head : ∀ c, cs.head? = some c → isBlank c = false
  last : ∀ c, cs.getLast? = some c → isBlank c = false

theorem dropWhile_of_head {p : α → Bool} {l : List α} (h : ∀ a, l.head? = some a → p a = false) :
    l.dropWhile p = l := by
  cases l with
  | nil => rfl
  | cons a l => exact List.dropWhile_cons_of_neg (Bool.eq_false_iff.mp (h a rfl))

namespace IsTrimmed

theorem trim_eq (h : IsTrimmed cs) : trim cs = cs := by
  have hlast : ∀ c, cs.reverse.head? = some c → isBlank c = false := by
    intro c hc
    exact h.last c (List.head?_reverse ▸ hc)
  rw [trim, dropWhile_of_head h.head, dropWhile_of_head hlast, List.reverse_reverse]

theorem append {ds : List Char} (h : IsTrimmed cs) (h' : IsTrimmed ds) (hne : cs ≠ [])
    (hne' : ds ≠ []) (between : List Char) : IsTrimmed (cs ++ between ++ ds) := by
  obtain ⟨c, cs, rfl⟩ := List.exists_cons_of_ne_nil hne
  refine ⟨h.head, fun d hd => h'.last d ?_⟩
  rw [List.getLast?_append_of_ne_nil _ hne'] at hd
  exact hd

end IsTrimmed

theorem IsField.isTrimmed (h : IsField f) : IsTrimmed f :=
  ⟨fun c hc => h.not_blank c (List.mem_of_mem_head? hc),
    fun c hc => h.not_blank c (List.mem_of_mem_getLast? hc)⟩

theorem intercalate_ne_nil {fs : List (List Char)} (h : ∀ f ∈ fs, IsField f) (hne : fs ≠ []) :
    List.intercalate [b] fs ≠ [] := by
  obtain ⟨f, fs, rfl⟩ := List.exists_cons_of_ne_nil hne
  have hf := (h f List.mem_cons_self).ne_nil
  cases fs with
  | nil => simpa using hf
  | cons g fs => simp [List.intercalate_cons_cons, hf]

theorem isTrimmed_intercalate {fs : List (List Char)} (h : ∀ f ∈ fs, IsField f) :
    IsTrimmed (List.intercalate [b] fs) := by
  induction fs with
  | nil => exact ⟨by simp, by simp⟩
  | cons f fs ih =>
    have hf := h f List.mem_cons_self
    have hfs := fun g hg => h g (List.mem_cons_of_mem f hg)
    cases fs with
    | nil => simpa using hf.isTrimmed
    | cons g fs =>
      rw [List.intercalate_cons_cons]
      exact hf.isTrimmed.append (ih hfs) hf.ne_nil
        (intercalate_ne_nil hfs (List.cons_ne_nil g fs)) [b]

/-! ### Trimming -/

theorem trim_append_blanks (cs : List Char) :
    trim cs ++ (cs.dropWhile isBlank).rtakeWhile isBlank = cs.dropWhile isBlank :=
  List.rdropWhile_append_rtakeWhile

/-- The blanks around a text are not part of its fields. -/
theorem fields_trim (cs : List Char) : fields (trim cs) = fields cs := by
  have hlast : ∀ b ∈ (cs.dropWhile isBlank).rtakeWhile isBlank, isBlank b = true :=
    fun b hb => List.mem_rtakeWhile_imp hb
  rw [← fields_append_of_blank hlast, trim_append_blanks, fields_dropWhile]

theorem trim_eq_nil_iff : trim cs = [] ↔ ∀ c ∈ cs, isBlank c = true := by
  have hstart : trim cs = [] ↔ ∀ c ∈ cs.dropWhile isBlank, isBlank c = true :=
    List.rdropWhile_eq_nil_iff
  rw [hstart]
  constructor
  · intro h c hc
    rw [← List.takeWhile_append_dropWhile (p := isBlank) (l := cs)] at hc
    rcases List.mem_append.mp hc with hc | hc
    · exact List.mem_takeWhile_imp hc
    · exact h c hc
  · exact fun h c hc => h c (List.dropWhile_subset _ hc)

end Sortie.Text
