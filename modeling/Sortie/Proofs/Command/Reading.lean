import Sortie.Proofs.Command.Faults
import Sortie.Proofs.Text.Blank

/-!
# Which texts are waypoint lists

The lines of a text with something on them keep their numbers among all its lines (`written`).  The
first of them has to begin as a list does (`IsHeaded`).  Each of the others (`entries`) holds an item
if it has twelve fields and those that are read can be (`exists_says_iff`); else it has a fault, and
that is what reading the line reports (`readItem_eq_error_iff`).  All lines are read before the first
item is looked at (`read_eq_of_isHeaded`), so the fault of a line comes before that of an item in an
earlier line.
-/

namespace Sortie.Waylist

open Decimal (bounded? float?)

/-! ### Lines -/

/-- The lines with something on them, each with its number among all lines of the text. -/
def written (text : List Char) : List (List Char × Nat) :=
  ((Text.splitLines text).zipIdx 1).filter fun l => l.1.any (!Text.isBlank ·)

/-- Those are the lines that are read. -/
theorem numberedLines_eq (text : List Char) :
    numberedLines text = (written text).map fun l => (l.2, Text.trim l.1) := by
  unfold numberedLines written
  induction (Text.splitLines text).zipIdx 1 with
  | nil => rfl
  | cons l ls ih =>
    have hblank : (Text.trim l.1).isEmpty = !l.1.any (!Text.isBlank ·) := by
      rw [Bool.eq_iff_iff, List.isEmpty_iff, Text.trim_eq_nil_iff]
      simp
    rw [List.filterMap_cons, List.filter_cons, ih]
    dsimp only
    rw [hblank]
    cases l.1.any (!Text.isBlank ·) <;> rfl

/-- The first line with something on it begins as that of a list has to. -/
def IsHeaded (text : List Char) : Prop :=
  ∃ l ∈ (written text).head?, headerStart <+: Text.trim l.1

/-- The lines of the items. -/
def entries (text : List Char) : List (List Char × Nat) :=
  (written text).tail

/-! ### Fields -/

/-- The text of a field, nothing if there is no such field. -/
def fieldAt (fields : List (List Char)) (index : Nat) : List Char :=
  fields[index]?.getD []

/-- A field is a number as its place wants it.  The first two fields may be anything. -/
structure IsLegible (fields : List (List Char)) (index : Nat) : Prop where
  byte : index = 2 ∨ index = 11 → (bounded? 255 (fieldAt fields index)).isSome
  word : index = 3 → (bounded? 65535 (fieldAt fields index)).isSome
  float : 4 ≤ index ∧ index ≤ 10 → (float? (fieldAt fields index)).isSome

/-- The fields of a line are the numbers of an item. -/
structure Says (fields : List (List Char)) (i : Item) : Prop where
  count : fields.length = 12
  frame : bounded? 255 (fieldAt fields 2) = some i.frame
  command : bounded? 65535 (fieldAt fields 3) = some i.command
  a : float? (fieldAt fields 4) = some i.params.a
  b : float? (fieldAt fields 5) = some i.params.b
  c : float? (fieldAt fields 6) = some i.params.c
  d : float? (fieldAt fields 7) = some i.params.d
  x : float? (fieldAt fields 8) = some i.x
  y : float? (fieldAt fields 9) = some i.y
  z : float? (fieldAt fields 10) = some i.z
  autocontinue : ∃ n, bounded? 255 (fieldAt fields 11) = some n ∧ (i.autocontinue = true ↔ n ≠ 0)

/-- The fields that are read, in this order: the last one first. -/
def readingOrder : List Nat :=
  [11, 2, 3, 4, 5, 6, 7, 8, 9, 10]

/-- What is wrong with a field that cannot be read. -/
def FieldFaults (number : Nat) (fields : List (List Char)) (index : Nat)
    (fault : CommandFault) : Prop :=
  ¬ IsLegible fields index ∧ fault = .badField number (fieldAt fields index) index

/-- What is wrong with a line that holds no item: it has not twelve fields, or one that cannot be
read. -/
inductive LineFaults (number : Nat) (fields : List (List Char)) : CommandFault → Prop
  | count (h : fields.length ≠ 12) : LineFaults number fields (.fieldCount number fields.length)
  | field {fault : CommandFault} (h : fields.length = 12)
    (hfirst : FirstFault (FieldFaults number fields) readingOrder fault) :
    LineFaults number fields fault

section

variable {α β : Type} {number index : Nat} {fields : List (List Char)}
  {read? : List Char → Option α} {f : α → Except CommandFault β} {rest : List Nat}
  {fault : CommandFault} {i : Item}

theorem readField_eq_ok_iff {a : α} :
    readField number index fields read? = .ok a ↔ read? (fieldAt fields index) = some a := by
  unfold readField fieldAt
  cases h : read? (fields[index]?.getD []) <;> simp [h]

theorem readField_eq_error_iff :
    readField number index fields read? = .error fault ↔
      read? (fieldAt fields index) = none ∧
        fault = .badField number (fieldAt fields index) index := by
  unfold readField fieldAt
  cases h : read? (fields[index]?.getD []) <;> simp [h, eq_comm]

/-- A field that cannot be read is reported before those that are read after it. -/
theorem readField_bind_eq_error_iff
    (hread : IsLegible fields index ↔ (read? (fieldAt fields index)).isSome = true)
    (hrest : ∀ a, f a = .error fault ↔ FirstFault (FieldFaults number fields) rest fault) :
    (readField number index fields read? >>= f) = .error fault ↔
      FirstFault (FieldFaults number fields) (index :: rest) fault := by
  have hnone : ¬ IsLegible fields index ↔ read? (fieldAt fields index) = none := by
    rw [hread, Bool.not_eq_true, Option.isSome_eq_false_iff, Option.isNone_iff_eq_none]
  rw [bind_eq_error_iff, firstFault_cons_iff, readField_eq_error_iff, FieldFaults, hnone]
  simp only [readField_eq_ok_iff, hrest, FieldFaults, hnone]
  cases read? (fieldAt fields index) <;> simp

theorem isLegible_byte_iff (h : index = 2 ∨ index = 11) :
    IsLegible fields index ↔ (bounded? 255 (fieldAt fields index)).isSome = true :=
  ⟨fun hread => hread.byte h, fun hread => ⟨fun _ => hread, by omega, by omega⟩⟩

theorem isLegible_word_iff :
    IsLegible fields 3 ↔ (bounded? 65535 (fieldAt fields 3)).isSome = true :=
  ⟨fun hread => hread.word rfl, fun hread => ⟨by omega, fun _ => hread, by omega⟩⟩

theorem isLegible_float_iff (hlow : 4 ≤ index) (hhigh : index ≤ 10) :
    IsLegible fields index ↔ (float? (fieldAt fields index)).isSome = true :=
  ⟨fun hread => hread.float ⟨hlow, hhigh⟩, fun hread => ⟨by omega, by omega, fun _ => hread⟩⟩

theorem lineFaults_iff (hcount : fields.length = 12) :
    LineFaults number fields fault ↔
      FirstFault (FieldFaults number fields) readingOrder fault := by
  refine ⟨fun h => ?_, .field hcount⟩
  cases h with
  | count h => exact absurd hcount h
  | field _ hfirst => exact hfirst

/-- A line that holds no item is reported with its fault. -/
theorem readItem_eq_error_iff :
    readItem number fields = .error fault ↔ LineFaults number fields fault := by
  unfold readItem
  by_cases hcount : fields.length = 12
  · rw [if_neg (not_not.mpr hcount), lineFaults_iff hcount]
    refine readField_bind_eq_error_iff (isLegible_byte_iff (.inr rfl)) fun autocontinue => ?_
    refine readField_bind_eq_error_iff (isLegible_byte_iff (.inl rfl)) fun frame => ?_
    refine readField_bind_eq_error_iff isLegible_word_iff fun command => ?_
    iterate 7
      refine readField_bind_eq_error_iff (isLegible_float_iff (by decide) (by decide)) fun _ => ?_
    exact iff_of_false (fun h => by cases h) not_firstFault_nil
  · rw [if_pos hcount]
    constructor
    · intro h
      obtain rfl := Except.error.inj h
      exact .count hcount
    · intro h
      cases h with
      | count => rfl
      | field h => exact absurd h hcount

/-- The item of a line is the one that its fields say. -/
theorem readItem_eq_ok_iff : readItem number fields = .ok i ↔ Says fields i := by
  unfold readItem
  by_cases hcount : fields.length = 12
  · rw [if_neg (not_not.mpr hcount)]
    constructor
    · intro h
      obtain ⟨autocontinue, hautocontinue, h⟩ := exists_of_bind_eq_ok h
      obtain ⟨frame, hframe, h⟩ := exists_of_bind_eq_ok h
      obtain ⟨command, hcommand, h⟩ := exists_of_bind_eq_ok h
      obtain ⟨a, ha, h⟩ := exists_of_bind_eq_ok h
      obtain ⟨b, hb, h⟩ := exists_of_bind_eq_ok h
      obtain ⟨c, hc, h⟩ := exists_of_bind_eq_ok h
      obtain ⟨d, hd, h⟩ := exists_of_bind_eq_ok h
      obtain ⟨x, hx, h⟩ := exists_of_bind_eq_ok h
      obtain ⟨y, hy, h⟩ := exists_of_bind_eq_ok h
      obtain ⟨z, hz, h⟩ := exists_of_bind_eq_ok h
      obtain rfl := Except.ok.inj h
      exact {
        count := hcount
        frame := readField_eq_ok_iff.mp hframe
        command := readField_eq_ok_iff.mp hcommand
        a := readField_eq_ok_iff.mp ha
        b := readField_eq_ok_iff.mp hb
        c := readField_eq_ok_iff.mp hc
        d := readField_eq_ok_iff.mp hd
        x := readField_eq_ok_iff.mp hx
        y := readField_eq_ok_iff.mp hy
        z := readField_eq_ok_iff.mp hz
        autocontinue := ⟨autocontinue, readField_eq_ok_iff.mp hautocontinue, decide_eq_true_iff⟩ }
    · intro h
      obtain ⟨n, hn, hautocontinue⟩ := h.autocontinue
      have hflag : i.autocontinue = decide (n ≠ 0) := by
        rw [Bool.eq_iff_iff, hautocontinue, decide_eq_true_iff]
      simp only [readField_eq_ok_iff.mpr hn, readField_eq_ok_iff.mpr h.frame,
        readField_eq_ok_iff.mpr h.command, readField_eq_ok_iff.mpr h.a, readField_eq_ok_iff.mpr h.b,
        readField_eq_ok_iff.mpr h.c, readField_eq_ok_iff.mpr h.d, readField_eq_ok_iff.mpr h.x,
        readField_eq_ok_iff.mpr h.y, readField_eq_ok_iff.mpr h.z]
      show Except.ok { i with autocontinue := decide (n ≠ 0) } = _
      rw [← hflag]
  · rw [if_pos hcount]
    exact iff_of_false (fun h => by cases h) fun h => hcount h.count

/-- A line holds an item exactly if it has twelve fields and all that are read can be. -/
theorem exists_says_iff :
    (∃ i, Says fields i) ↔ fields.length = 12 ∧ ∀ index ∈ readingOrder, IsLegible fields index := by
  have hread : (∃ i, Says fields i) ↔ ∀ fault, ¬ LineFaults 0 fields fault := by
    have := exists_eq_ok_iff (r := readItem 0 fields)
    simpa only [readItem_eq_ok_iff, ne_eq, readItem_eq_error_iff] using this
  rw [hread]
  by_cases hcount : fields.length = 12
  · simp only [lineFaults_iff hcount, forall_not_firstFault_iff, FieldFaults, hcount, true_and]
    exact forall₂_congr fun index _ => by simp
  · exact iff_of_false (fun h => h _ (.count hcount)) fun h => hcount h.1

end

/-! ### Lists -/

/-- The line of an item and the command that the item is. -/
def Gives (l : List Char × Nat) (c : Command) : Prop :=
  ∃ i, Says (Text.fields l.1) i ∧ Command.ofItem i = .ok c

/-- Without the first line of a list there is nothing to read. -/
theorem read_eq_of_not_isHeaded {text : List Char} (h : ¬ IsHeaded text) :
    read text = .error .missingHeader := by
  unfold read
  rw [numberedLines_eq]
  unfold IsHeaded at h
  cases hlines : written text with
  | nil => rfl
  | cons l rest =>
    rw [hlines] at h
    have hstart : ¬ headerStart.isPrefixOf (Text.trim l.1) = true := by
      simpa using h
    exact if_neg hstart

/-- The lines are read before the items. -/
theorem read_eq_of_isHeaded {text : List Char} (h : IsHeaded text) :
    read text = (entries text).mapM (fun l => readItem l.2 (Text.fields l.1)) >>=
      Sequence.ofItems := by
  unfold read entries
  rw [numberedLines_eq]
  unfold IsHeaded at h
  cases hlines : written text with
  | nil => simp [hlines] at h
  | cons l rest =>
    rw [hlines] at h
    have hstart : headerStart.isPrefixOf (Text.trim l.1) = true := by
      simpa using h
    rw [List.map_cons]
    dsimp only
    rw [if_pos hstart, List.mapM_map]
    simp only [Function.comp_def, Text.fields_trim]
    rfl

variable {text : List Char} {s : Sequence} {fault : CommandFault}

theorem read_eq_ok_iff :
    read text = .ok s ↔ IsHeaded text ∧ List.Forall₂ Gives (entries text) s := by
  by_cases h : IsHeaded text
  · rw [read_eq_of_isHeaded h, and_iff_right h, bind_eq_ok_iff]
    simp only [Sequence.ofItems, mapM_eq_ok_iff, readItem_eq_ok_iff]
    exact forall₂_comp_iff.symm
  · rw [read_eq_of_not_isHeaded h]
    exact iff_of_false (fun h => by cases h) fun h' => h h'.1

theorem exists_gives_iff {l : List Char × Nat} :
    (∃ c, Gives l c) ↔ ∃ i, Says (Text.fields l.1) i ∧ i.IsSupported := by
  constructor
  · rintro ⟨c, i, hsays, hc⟩
    exact ⟨i, hsays, Command.exists_ofItem_iff.mp ⟨c, hc⟩⟩
  · rintro ⟨i, hsays, hsupported⟩
    obtain ⟨c, hc⟩ := Command.exists_ofItem_iff.mpr hsupported
    exact ⟨c, i, hsays, hc⟩

theorem read_eq_error_iff (h : IsHeaded text) :
    read text = .error fault ↔
      FirstFault (fun l => LineFaults l.2 (Text.fields l.1)) (entries text) fault ∨
        ∃ is, List.Forall₂ (fun l => Says (Text.fields l.1)) (entries text) is ∧
          FirstFault Item.Faults is fault := by
  rw [read_eq_of_isHeaded h, bind_eq_error_iff, mapM_eq_error_iff]
  simp only [Sequence.ofItems, mapM_eq_error_iff, mapM_eq_ok_iff, readItem_eq_ok_iff,
    readItem_eq_error_iff, Command.ofItem_eq_error_iff]

/-- **A text is read as a list exactly if it begins as one and each of its other lines holds an item
that is a command, and the list has these commands in the order of the lines.**  Otherwise the start
of the text is reported, else the first line that holds no item, and only if there is none the first
item that is no command. -/
theorem read_outcome (text : List Char) :
    ((∃ s, read text = .ok s) ↔
      IsHeaded text ∧ ∀ l ∈ entries text, ∃ i, Says (Text.fields l.1) i ∧ i.IsSupported) ∧
    (∀ s, read text = .ok s → List.Forall₂ Gives (entries text) s) ∧
    ∀ fault, read text = .error fault ↔
      ¬ IsHeaded text ∧ fault = .missingHeader ∨
      IsHeaded text ∧
        (FirstFault (fun l => LineFaults l.2 (Text.fields l.1)) (entries text) fault ∨
          ∃ is, List.Forall₂ (fun l => Says (Text.fields l.1)) (entries text) is ∧
            FirstFault Item.Faults is fault) := by
  refine ⟨?_, fun s hs => (read_eq_ok_iff.mp hs).2, fun fault => ?_⟩
  · simp only [read_eq_ok_iff, exists_and_left, exists_forall₂_iff, exists_gives_iff]
  · by_cases h : IsHeaded text
    · simp only [h, not_true_eq_false, false_and, false_or, true_and]
      exact read_eq_error_iff h
    · rw [read_eq_of_not_isHeaded h]
      simp only [h, not_false_eq_true, false_and, or_false, true_and]
      exact ⟨fun h => (Except.error.inj h).symm, fun h => h ▸ rfl⟩

/-- Two items, with tabs or spaces between their fields and blanks around their lines. -/
def scrawled : List Char :=
  ("\n  QGC WPL 110\r\n\n0\t1\t3\t16\t.5\t0\t0\t90\t46.25\t-6e1\t+30\t1\r\n"
    ++ " 1 x 2\t\t2000 0 inf 7 0 0 0 0 0 ").toList

def scrawledCommands : Sequence :=
  [.waypoint ⟨46.25, -60⟩ 30 90 0.5 .relative, .startPhotos (1 / 0) 7]

/-- The same with an item that is no command, and with a line below that lacks a field. -/
def torn : List Char :=
  scrawled ++ "\n2 0 2 31000 0 0 0 0 0 0 0 1\n\n3 0 2 20 0 0 0 0 0 0 0".toList

/-- A line that cannot be read is reported before an earlier one that names no command. Blank lines
have numbers as well. -/
theorem read_outcome_scrawled :
    (read scrawled = .ok scrawledCommands ∧
      (IsHeaded scrawled ∧ ∀ l ∈ entries scrawled, ∃ i, Says (Text.fields l.1) i ∧ i.IsSupported) ∧
      List.Forall₂ Gives (entries scrawled) scrawledCommands) ∧
    (entries torn).map (fun l => (l.2, (Text.fields l.1).length)) =
      [(4, 12), (5, 12), (6, 12), (8, 11)] ∧
    read torn = .error (.fieldCount 8 11) ∧
    ¬ (IsHeaded torn ∧ ∀ l ∈ entries torn, ∃ i, Says (Text.fields l.1) i ∧ i.IsSupported) := by
  have hscrawled : read scrawled = .ok scrawledCommands := by rfl
  have htorn : read torn = .error (.fieldCount 8 11) := by rfl
  obtain ⟨hread, hgives, -⟩ := read_outcome scrawled
  obtain ⟨hreadTorn, -, -⟩ := read_outcome torn
  refine ⟨⟨hscrawled, hread.mp ⟨_, hscrawled⟩, hgives _ hscrawled⟩, by rfl, htorn, fun hall => ?_⟩
  obtain ⟨s, hs⟩ := hreadTorn.mpr hall
  cases hs.symm.trans htorn

end Sortie.Waylist
