import Sortie.Proofs.Json.Shapes

/-!
# Records read what is written

A record is read if each of its fields is (`reads_record`), and a variant if its content is
(`reads_choice_content`).  The fields of an object are met one by one and put in the declared order
at the end, so what a record is read as stands in the order of its fields.
-/

namespace Sortie.Json

open Text (Bytes)

/-! ### Records -/

section

variable {α : Type} {f : Bool → Reader α} {gap q : Bytes} {a? : Option α}

theorem takes_moreFields_first (hgap : IsGap gap) (h : Takes (f true) (ascii '"' :: q) a?) :
    Takes (moreFields true >>= f) (gap ++ ascii '"' :: q) a? := by
  unfold moreFields
  rw [bind_assoc]
  refine takes_peek hgap (b := ascii '"') (by decide) ?_
  rw [if_neg (by decide), if_pos rfl, if_pos rfl, pure_bind]
  exact h

theorem takes_moreFields_next (hgap : IsGap gap) (h : Takes (f true) (ascii '"' :: q) a?) :
    Takes (moreFields false >>= f) (ascii ',' :: (gap ++ ascii '"' :: q)) a? := by
  unfold moreFields
  rw [bind_assoc]
  refine takes_peek isGap_nil (b := ascii ',') (by decide) ?_
  rw [if_neg (by decide), if_neg Bool.false_ne_true, if_pos rfl, bind_assoc]
  refine takes_drop ?_
  rw [bind_assoc]
  refine takes_peek hgap (b := ascii '"') (by decide) ?_
  rw [if_pos rfl, pure_bind]
  exact h

theorem takes_moreFields_end (first : Bool) (hgap : IsGap gap)
    (h : Takes (f false) (ascii '}' :: q) a?) :
    Takes (moreFields first >>= f) (gap ++ ascii '}' :: q) a? := by
  unfold moreFields
  rw [bind_assoc]
  refine takes_peek hgap (b := ascii '}') (by decide) ?_
  rw [if_pos rfl, pure_bind]
  exact h

end

/-- What stands behind the bracket of an object. -/
def objectBody (level : Nat) : List (String × Json) → List Char
  | [] => ['}']
  | (k, j) :: fs =>
    newLine (level + 1) ++ quoted k ++ ':' :: ' ' :: pretty (level + 1) j ++ prettyFields level fs

theorem encode_pretty_object (level : Nat) (fs : List (String × Json)) :
    Text.encode (pretty level (.object fs)) = ascii '{' :: Text.encode (objectBody level fs) := by
  cases fs <;> rfl

/-- A field of a record, with the value that is written in it and the one that is read. -/
structure Entry where
  field : Shape.Field
  written : Json
  read? : Option Json

namespace Entry

/-- The field as it stands in the object that is written. -/
def pair (e : Entry) : String × Json :=
  (e.field.name, e.written)

/-- The field as it stands in the object that is read. -/
def found (e : Entry) : Option (String × Json) :=
  e.read?.map (e.field.name, ·)

/-- The shape of the field takes what is written in it. -/
def Holds (levels : Nat) (e : Entry) : Prop :=
  e.field.shape.Reads levels e.written e.read?

def text (level : Nat) (e : Entry) : List Char :=
  quoted e.field.name ++ ':' :: ' ' :: e.written.pretty (level + 1)

end Entry

variable {fields : List Shape.Field} {seen : List (String × Json)} {levels depth level : Nat}

theorem takes_field {e : Entry} (hfind : fields.find? (·.name = e.field.name) = some e.field)
    (hnew : seen.lookup e.field.name = none) (h : e.Holds levels) (hdepth : levels ≤ depth) :
    Takes (Shape.field depth fields seen) (Text.encode (e.text level))
      (e.read?.map fun j => (e.field.name, j) :: seen) := by
  have htext : Text.encode (e.text level)
      = ascii '"' :: (Text.encode (e.field.name.toList.flatMap escapeChar ++ ['"'])
        ++ ascii ':' :: ascii ' ' :: Text.encode (e.written.pretty (level + 1))) := by
    unfold Entry.text quoted
    rw [Text.encode_append]
    rfl
  rw [htext]
  unfold Shape.field
  refine takes_drop ?_
  refine (takes_readText _).bind_some (ends_cons (by decide) _) ?_
  rw [hfind]
  dsimp only
  rw [hnew, Option.isSome_none, if_neg Bool.false_ne_true]
  refine takes_expect isGap_nil (by decide) ?_
  rw [Option.map_eq_bind]
  exact (h depth hdepth (level + 1) [ascii ' '] isGap_blank).bind_nil fun j _ => .pure _

theorem ends_encode_prettyFields (level : Nat) (fs : List (String × Json)) :
    Ends (Text.encode (prettyFields level fs)) := by
  cases fs with
  | nil => exact ends_cons (b := ascii '\n') (by decide) _
  | cons f fs => exact ends_cons (b := ascii ',') (by decide) _

theorem prettyFields_cons (level : Nat) (e : Entry) (entries : List Entry) :
    prettyFields level ((e :: entries).map Entry.pair)
      = ',' :: (newLine (level + 1) ++ (e.text level
        ++ prettyFields level (entries.map Entry.pair))) := by
  simp [prettyFields, Entry.pair, Entry.text]

/-- Fields of an object that are still to be read: each belongs to the record and has not been met
before, and no two have one name. -/
structure Readable (fields : List Shape.Field) (levels : Nat) (seen : List (String × Json))
    (entries : List Entry) : Prop where
  find : ∀ e ∈ entries, fields.find? (·.name = e.field.name) = some e.field
  unseen : ∀ e ∈ entries, seen.lookup e.field.name = none
  nodup : (entries.map (·.field.name)).Nodup
  holds : ∀ e ∈ entries, e.Holds levels

theorem Readable.tail {e : Entry} {entries : List Entry}
    (h : Readable fields levels seen (e :: entries)) (j : Json) :
    Readable fields levels ((e.field.name, j) :: seen) entries where
  find e' he := h.find e' (List.mem_cons_of_mem e he)
  unseen e' he := by
    have hne : e'.field.name ≠ e.field.name := fun heq =>
      (List.nodup_cons.mp h.nodup).1 (List.mem_map.mpr ⟨e', he, heq⟩)
    rw [List.lookup_cons, beq_eq_false_iff_ne.mpr hne]
    exact h.unseen e' (List.mem_cons_of_mem e he)
  nodup := (List.nodup_cons.mp h.nodup).2
  holds e' he := h.holds e' (List.mem_cons_of_mem e he)

/-- What has been met so far stands in the reverse order. -/
def push (seen : List (String × Json)) (entries : List Entry) : Option (List (String × Json)) :=
  (entries.mapM Entry.found).map fun js => js.reverse ++ seen

theorem push_cons (seen : List (String × Json)) (e : Entry) (entries : List Entry) :
    push seen (e :: entries)
      = (e.read?.map fun j => (e.field.name, j) :: seen).bind (push · entries) := by
  unfold push
  rw [List.mapM_cons, Entry.found]
  cases e.read? with
  | none => rfl
  | some j => cases entries.mapM Entry.found <;> simp

theorem takes_field_then {e : Entry} {entries : List Entry} {n : Nat}
    (h : Readable fields levels seen (e :: entries)) (hdepth : levels ≤ depth)
    (hrest : ∀ seen, Readable fields levels seen entries →
      Takes (foldFields (Shape.field depth fields) n false seen)
        (Text.encode (prettyFields level (entries.map Entry.pair))) (push seen entries)) :
    Takes (do let s ← Shape.field depth fields seen; foldFields (Shape.field depth fields) n false s)
      (Text.encode (e.text level ++ prettyFields level (entries.map Entry.pair)))
      (push seen (e :: entries)) := by
  have he : e ∈ e :: entries := List.mem_cons_self
  rw [Text.encode_append, push_cons]
  refine (takes_field (h.find e he) (h.unseen e he) (h.holds e he) hdepth).bind
    (ends_encode_prettyFields level _) fun seen' hseen => ?_
  obtain ⟨j, -, rfl⟩ := Option.map_eq_some_iff.mp hseen
  exact hrest _ (h.tail j)

/-- The fields behind the first, up to the closing bracket. -/
theorem takes_fields {entries : List Entry} (h : Readable fields levels seen entries)
    (hdepth : levels ≤ depth) {n : Nat}
    (hn : (Text.encode (prettyFields level (entries.map Entry.pair))).length < n) :
    Takes (foldFields (Shape.field depth fields) n false seen)
      (Text.encode (prettyFields level (entries.map Entry.pair))) (push seen entries) := by
  induction entries generalizing n seen with
  | nil =>
    obtain ⟨n, rfl⟩ : ∃ k, n = k + 1 := ⟨n - 1, by omega⟩
    show Takes _ (Text.encode (newLine level ++ ['}'])) _
    rw [Text.encode_append]
    exact takes_moreFields_end false (isGap_newLine level) (takes_drop (.pure _))
  | cons e entries ih =>
    obtain ⟨n, rfl⟩ : ∃ k, n = k + 1 := ⟨n - 1, by omega⟩
    rw [prettyFields_cons] at hn ⊢
    have hlength : (Text.encode (prettyFields level (entries.map Entry.pair))).length < n := by
      rw [← List.append_assoc] at hn
      exact length_lt_of_cons hn
    have hthen := takes_field_then h hdepth fun seen hrest => ih hrest hlength
    show Takes _ (ascii ',' :: Text.encode (newLine (level + 1) ++ _)) _
    rw [Text.encode_append]
    exact takes_moreFields_next (isGap_newLine (level + 1)) hthen

/-- All fields of an object. -/
theorem takes_all_fields {entries : List Entry} (h : Readable fields levels seen entries)
    (hdepth : levels ≤ depth) {n : Nat}
    (hn : (Text.encode (objectBody level (entries.map Entry.pair))).length < n) :
    Takes (foldFields (Shape.field depth fields) n true seen)
      (Text.encode (objectBody level (entries.map Entry.pair))) (push seen entries) := by
  obtain ⟨n, rfl⟩ : ∃ k, n = k + 1 := ⟨n - 1, by omega⟩
  cases entries with
  | nil => exact takes_moreFields_end true isGap_nil (takes_drop (.pure _))
  | cons e entries =>
    have hbody : objectBody level ((e :: entries).map Entry.pair)
        = newLine (level + 1) ++ (e.text level ++ prettyFields level (entries.map Entry.pair)) := by
      simp [objectBody, Entry.pair, Entry.text]
    rw [hbody] at hn ⊢
    have hlength : (Text.encode (prettyFields level (entries.map Entry.pair))).length < n := by
      rw [← List.append_assoc] at hn
      exact length_lt_of_cons (c := '\n')
        (p := List.replicate (2 * (level + 1)) ' ' ++ e.text level) hn
    rw [Text.encode_append]
    exact takes_moreFields_first (isGap_newLine (level + 1))
      (takes_field_then h hdepth fun seen hrest => takes_fields hrest hdepth hlength)

theorem find?_field {f : Shape.Field} (hnodup : (fields.map (·.name)).Nodup) (hf : f ∈ fields) :
    fields.find? (·.name = f.name) = some f := by
  induction fields with
  | nil => cases hf
  | cons g fields ih =>
    obtain ⟨hnew, hnodup⟩ := List.nodup_cons.mp hnodup
    rcases List.mem_cons.mp hf with rfl | hf
    · simp
    · have hne : g.name ≠ f.name := fun heq =>
        hnew (List.mem_map.mpr ⟨f, hf, heq.symm⟩)
      rw [List.find?_cons_of_neg (by simpa using hne)]
      exact ih hnodup hf

theorem lookup_of_mem {js : List (String × Json)} (hnodup : (js.map (·.1)).Nodup)
    {p : String × Json} (hp : p ∈ js) : js.lookup p.1 = some p.2 := by
  induction js with
  | nil => cases hp
  | cons q js ih =>
    obtain ⟨hnew, hnodup⟩ := List.nodup_cons.mp hnodup
    rw [List.lookup_cons]
    rcases List.mem_cons.mp hp with rfl | hp
    · simp
    · have hne : p.1 ≠ q.1 := fun heq => hnew (List.mem_map.mpr ⟨p, hp, heq⟩)
      rw [beq_eq_false_iff_ne.mpr hne]
      exact ih hnodup hp

theorem map_fst_of_found {entries : List Entry} {js : List (String × Json)}
    (h : entries.mapM Entry.found = some js) : js.map (·.1) = entries.map (·.field.name) := by
  induction entries generalizing js with
  | nil =>
    obtain rfl := Option.some.inj h
    rfl
  | cons e entries ih =>
    rw [List.mapM_cons] at h
    obtain ⟨p, hp, h⟩ := Option.bind_eq_some_iff.mp h
    obtain ⟨js', hjs', h⟩ := Option.bind_eq_some_iff.mp h
    obtain ⟨j, -, rfl⟩ := Option.map_eq_some_iff.mp hp
    obtain rfl := Option.some.inj h
    simp [ih hjs']

theorem complete_of_lookup {js : List (String × Json)}
    (hnames : js.map (·.1) = fields.map (·.name))
    (hlookup : ∀ p ∈ js, seen.lookup p.1 = some p.2) : Shape.complete fields seen = some js := by
  induction fields generalizing js with
  | nil =>
    obtain rfl := List.map_eq_nil_iff.mp hnames
    rfl
  | cons f fields ih =>
    obtain ⟨⟨name, j⟩, js, rfl, hp, htail⟩ := List.map_eq_cons_iff.mp hnames
    obtain rfl : name = f.name := hp
    have hhead : seen.lookup f.name = some j := hlookup (f.name, j) List.mem_cons_self
    have htail := ih htail fun q hq => hlookup q (List.mem_cons_of_mem _ hq)
    unfold Shape.complete at htail ⊢
    rw [List.mapM_cons, htail, hhead]
    rfl

/-- The fields that have been met, put in the declared order again. -/
theorem complete_reverse {entries : List Entry} {js : List (String × Json)}
    (hnodup : (entries.map (·.field.name)).Nodup) (h : entries.mapM Entry.found = some js) :
    Shape.complete (entries.map (·.field)) js.reverse = some js := by
  have hnames := map_fst_of_found h
  have hreverse : (js.reverse.map (·.1)).Nodup := by
    rw [List.map_reverse, hnames]
    exact List.pairwise_reverse.mpr (hnodup.imp Ne.symm)
  refine complete_of_lookup (by rw [hnames, List.map_map]; rfl) fun p hp => ?_
  exact lookup_of_mem hreverse (List.mem_reverse.mpr hp)

/-- The fields of a record, what is written in them, and what is read from that. -/
inductive ReadsFields (levels : Nat) :
    List Shape.Field → List (String × Json) → Option (List (String × Json)) → Prop
  | nil : ReadsFields levels [] [] (some [])
  | cons {f : Shape.Field} {fs : List Shape.Field} {j : Json} {j? : Option Json}
      {js : List (String × Json)} {js? : Option (List (String × Json))}
      (h : f.shape.Reads levels j j?) (hs : ReadsFields levels fs js js?) :
      ReadsFields levels (f :: fs) ((f.name, j) :: js)
        (j?.bind fun j => js?.map ((f.name, j) :: ·))

theorem ReadsFields.exists_entries {js : List (String × Json)}
    {js? : Option (List (String × Json))} (h : ReadsFields levels fields js js?) :
    ∃ entries : List Entry, entries.map (·.field) = fields ∧ entries.map Entry.pair = js ∧
      entries.mapM Entry.found = js? ∧ ∀ e ∈ entries, e.Holds levels := by
  induction h with
  | nil => exact ⟨[], rfl, rfl, rfl, fun _ he => nomatch he⟩
  | @cons f fs j j? js js? h _ ih =>
    obtain ⟨entries, rfl, rfl, rfl, hholds⟩ := ih
    refine ⟨⟨f, j, j?⟩ :: entries, rfl, rfl, ?_, ?_⟩
    · rw [List.mapM_cons]
      cases j? with
      | none => rfl
      | some j => cases entries.mapM Entry.found <;> rfl
    · intro e he
      rcases List.mem_cons.mp he with rfl | he
      · exact h
      · exact hholds e he

/-- A record is read field by field. -/
theorem reads_record {js : List (String × Json)} {js? : Option (List (String × Json))}
    (h : ReadsFields levels fields js js?) (hnodup : (fields.map (·.name)).Nodup) :
    (Shape.record fields).Reads (levels + 1) (.object js) (js?.map .object) := by
  obtain ⟨entries, rfl, rfl, rfl, hholds⟩ := h.exists_entries
  have hnames : (entries.map (·.field)).map (·.name) = entries.map (·.field.name) := by
    rw [List.map_map]
    rfl
  have hreadable : Readable (entries.map (·.field)) levels [] entries :=
    { find := fun e he => find?_field hnodup (List.mem_map_of_mem he)
      unseen := fun _ _ => rfl
      nodup := hnames ▸ hnodup
      holds := hholds }
  have hresult : (entries.mapM Entry.found).map Json.object = (push [] entries).bind fun seen =>
      (Shape.complete (entries.map (·.field)) seen).map Json.object := by
    unfold push
    cases hfound : entries.mapM Entry.found with
    | none => rfl
    | some js =>
      show some (Json.object js) = (Shape.complete _ (js.reverse ++ [])).map Json.object
      rw [List.append_nil, complete_reverse hreadable.nodup hfound]
      rfl
  intro depth hdepth level gap hgap
  obtain ⟨depth, rfl⟩ : ∃ k, depth = k + 1 := ⟨depth - 1, by omega⟩
  rw [encode_pretty_object, hresult]
  unfold Shape.record Shape.fieldsOf
  refine takes_peek hgap (b := ascii '{') (by decide) ?_
  rw [if_pos rfl]
  refine takes_enter (takes_itemBound fun n hn => ?_)
  refine (takes_all_fields hreadable (by omega) hn).bind_nil fun seen _ => ?_
  cases Shape.complete (entries.map (·.field)) seen with
  | none => exact .throw _ _
  | some js => exact .pure _

/-! ### Variants -/

variable {variants : List (String × Option Shape)}

theorem reads_choice_name {name : String} (h : variants.lookup name = some none) :
    (Shape.choice variants).Reads levels (.text name) (some (.text name)) := by
  intro depth _ level gap hgap
  unfold Shape.choice
  refine takes_peek hgap (b := ascii '"') (by decide) ?_
  rw [if_pos rfl]
  refine takes_drop ((takes_readText name).bind_nil_some ?_)
  rw [h]
  exact .pure _

theorem reads_choice_content {name : String} {shape : Shape} {j : Json} {j? : Option Json}
    (h : variants.lookup name = some (some shape)) (hread : shape.Reads levels j j?) :
    (Shape.choice variants).Reads (levels + 1) (.object [(name, j)])
      (j?.map fun j => .object [(name, j)]) := by
  intro depth hdepth level gap hgap
  obtain ⟨depth, rfl⟩ : ∃ k, depth = k + 1 := ⟨depth - 1, by omega⟩
  have hbody : Text.encode (objectBody level [(name, j)])
      = Text.encode (newLine (level + 1)) ++ ascii '"' ::
        (Text.encode (name.toList.flatMap escapeChar ++ ['"']) ++ ascii ':' ::
          (ascii ' ' :: Text.encode (j.pretty (level + 1)) ++
            (Text.encode (newLine level) ++ [ascii '}']))) := by
    have hparts : objectBody level [(name, j)] = newLine (level + 1) ++ '"' ::
        (name.toList.flatMap escapeChar ++ ['"'] ++ ':' :: ' ' :: (j.pretty (level + 1)
          ++ (newLine level ++ ['}']))) := by
      simp [objectBody, prettyFields, quoted]
    rw [hparts, Text.encode_append, Text.encode_cons, Text.encode_append, Text.encode_cons,
      Text.encode_cons, Text.encode_append, Text.encode_append, Text.encode_append]
    rfl
  have hclose (j : Json) : Takes (do expect '}'; return j)
      (Text.encode (newLine level) ++ [ascii '}']) (some j) :=
    takes_expect (isGap_newLine level) (by decide) (.pure j)
  rw [encode_pretty_object, hbody]
  unfold Shape.choice
  refine takes_peek hgap (b := ascii '{') (by decide) ?_
  rw [if_neg (by decide), if_pos rfl]
  refine takes_enter (takes_expect (isGap_newLine (level + 1)) (by decide) ?_)
  refine (takes_readText name).bind_some (ends_cons (by decide) _) ?_
  rw [h]
  refine takes_expect isGap_nil (by decide) ?_
  rw [Option.map_eq_bind]
  refine (hread depth (by omega) (level + 1) [ascii ' '] isGap_blank).bind
    (ends_cons (b := ascii '\n') (by decide) _) fun j _ => ?_
  rw [pure_bind]
  exact hclose _

end Sortie.Json
