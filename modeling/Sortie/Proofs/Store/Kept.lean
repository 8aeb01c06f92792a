import Sortie.Store.Basic

/-!
# What a store keeps

A file that has been written is read back, and a file that has been removed is not there any more.
In memory this is by the path alone; other paths, and a store that refuses, are left as they are.

In folders it is by the place that a path leads to.  Folders that are made on the way are made only
where nothing is, so every file is found where it was (`Directory.Extends`), and a write changes what
is at one place (`Directory.resolve_of_write`).  What files are named by stays (`naming_of_write`).
-/

namespace Sortie.Store

open Text (Bytes)

namespace Path

theorem beq_iff_parts {p q : Path} : (p == q) = true ↔ p.parts = q.parts := by
  show (p.parts == q.parts) = true ↔ _
  exact beq_iff_eq

theorem beq_congr {p q : Path} (h : (p == q) = true) (r : Path) : (p == r) = (q == r) := by
  show (p.parts == r.parts) = (q.parts == r.parts)
  rw [beq_iff_parts.mp h]

theorem beq_comm (p q : Path) : (p == q) = (q == p) :=
  Bool.eq_iff_iff.mpr (by rw [beq_iff_parts, beq_iff_parts, eq_comm])

end Path

namespace Memory

variable (m : Memory) (p q : Path) (data : Bytes)

theorem find?_put (files : List (Path × Bytes)) :
    ((put p data files).find? (·.1 == q)).map (·.2)
      = if p == q then some data else (files.find? (·.1 == q)).map (·.2) := by
  induction files with
  | nil => cases h : p == q <;> simp [put, h]
  | cons f files ih =>
    unfold put
    split
    · next hf =>
      simp only [List.find?_cons, Path.beq_congr hf q]
      cases p == q <;> rfl
    · next hf =>
      cases hq : f.1 == q with
      | false => simpa [List.find?_cons, hq] using ih
      | true =>
        have hp : (p == q) = false := by
          refine Bool.eq_false_iff.mpr fun hp => hf ?_
          rw [Path.beq_iff_parts] at hp hq ⊢
          exact hq.trans hp.symm
        simp [hq, hp]

/-- A file that has been put somewhere is taken away again by its path. -/
theorem filter_put (files : List (Path × Bytes)) :
    (put p data files).filter (!·.1 == p) = files.filter (!·.1 == p) := by
  have hp : (p == p) = true := Path.beq_iff_parts.mpr rfl
  induction files with
  | nil => simp [put, hp]
  | cons f files ih =>
    unfold put
    split
    · next hf => simp [hf]
    · next hf => simp [hf, ih]

/-- A write that is accepted takes the place of the file. -/
theorem get?_write (h : m.refuses p = false) :
    (m.write p data).2.get? q = if p == q then some data else m.get? q := by
  unfold write
  rw [h]
  exact find?_put p q data m.files

theorem refuses_write : (m.write p data).2.refuses q = m.refuses q := by
  unfold write
  split <;> rfl

theorem remove_write : (m.write p data).2.remove p = m.remove p := by
  unfold write remove
  split
  · rfl
  · rw [filter_put]

theorem get?_remove : (m.remove p).get? q = if p == q then none else m.get? q := by
  have hkept (f : Path × Bytes) :
      decide ((!f.1 == p) = true ∧ (f.1 == q) = true) = (!(p == q) && f.1 == q) := by
    cases h : f.1 == q with
    | false => simp
    | true => simp [Path.beq_congr h p, Path.beq_comm q p]
  unfold remove get?
  rw [List.find?_filter]
  simp only [hkept]
  cases p == q <;> simp

/-- A removal changes nothing where there is no file. -/
theorem remove_eq_self_iff : m.remove p = m ↔ m.get? p = none := by
  have hfiles : m.remove p = m ↔ m.files.filter (!·.1 == p) = m.files := by
    constructor
    · exact congrArg Memory.files
    · intro h
      unfold remove
      rw [h]
  rw [hfiles, List.filter_eq_self, get?, Option.map_eq_none_iff, List.find?_eq_none]
  simp

variable {m p data} {s : Store} {fault : Fault}

theorem write_eq_ok (h : (Store.memory m).write p data = (.ok (), s)) :
    m.refuses p = false ∧ s = .memory (m.write p data).2 := by
  refine ⟨?_, (Prod.mk.inj h).2.symm⟩
  have hok : (m.write p data).1 = .ok () := (Prod.mk.inj h).1
  unfold write at hok
  split at hok
  · cases hok
  · next hr => exact Bool.eq_false_iff.mpr hr

theorem write_eq_error (h : (Store.memory m).write p data = (.error fault, s)) :
    m.refuses p = true ∧ s = .memory m := by
  have herror : (m.write p data).1 = .error fault := (Prod.mk.inj h).1
  have hs : s = .memory (m.write p data).2 := (Prod.mk.inj h).2.symm
  unfold write at herror hs
  split at herror
  · next hr => exact ⟨hr, by rw [hs, if_pos hr]⟩
  · cases herror

end Memory

namespace Target

/-- Where a file is or can be. -/
def leaf? : Target → Option Location
  | folder _ => none
  | file at_ _ => some at_
  | missing at_ => some at_

end Target

namespace Directory

variable {d d' d'' : Directory} {p : Path} {data data' : Bytes} {at_ loc : Location} {t : Target}

/-- What is found at a leaf is what the list of files says. -/
def Told (d : Directory) : Target → Prop
  | .folder _ => True
  | .file at_ data => d.files.lookup at_ = some data
  | .missing at_ => d.files.lookup at_ = none

theorem told_of_enter {name : List Char} (h : d.enter at_ name = .ok t) : d.Told t := by
  unfold enter at h
  split at h
  · cases h
  · dsimp only at h
    split at h
    · obtain rfl := Except.ok.inj h
      trivial
    · split at h
      · next hlookup =>
        obtain rfl := Except.ok.inj h
        exact hlookup
      · next hlookup =>
        obtain rfl := Except.ok.inj h
        exact hlookup

/-- The leaf to which a step leads is inside the folder it starts from, and is none itself. -/
theorem leaf_of_enter {name : List Char} (h : d.enter at_ name = .ok t)
    (hleaf : t.leaf? = some loc) : at_ ++ [name] = loc ∧ loc ∉ d.folders := by
  unfold enter at h
  split at h
  · cases h
  · dsimp only at h
    split at h
    · obtain rfl := Except.ok.inj h
      cases hleaf
    · next hfolder =>
      have hloc : at_ ++ [name] = loc := by
        split at h <;> obtain rfl := Except.ok.inj h <;> exact Option.some.inj hleaf
      exact ⟨hloc, hloc ▸ hfolder⟩

/-- By the same step one comes to the same leaf, as long as that is not a folder. -/
theorem enter_leaf {name : List Char} (hfolder : loc ∉ d'.folders)
    (hfile : d'.files.lookup loc = some data) (h : d.enter at_ name = .ok t)
    (hleaf : t.leaf? = some loc) : d'.enter at_ name = .ok (.file loc data) := by
  have hloc := (leaf_of_enter h hleaf).1
  unfold enter at h ⊢
  split at h
  · cases h
  · next hlong =>
    rw [if_neg hlong]
    dsimp only
    rw [hloc, if_neg hfolder, hfile]

theorem enter_folder {name : List Char} {inside : Location} (hfolders : d.folders ⊆ d'.folders)
    (h : d.enter at_ name = .ok (.folder inside)) : d'.enter at_ name = .ok (.folder inside) := by
  unfold enter at h ⊢
  split at h
  · cases h
  · next hlong =>
    rw [if_neg hlong]
    dsimp only at h ⊢
    split at h
    · next hfolder =>
      rw [if_pos (hfolders hfolder)]
      exact h
    · split at h <;> cases h

/-- The way to a leaf is one through folders and a last step, and as long as these are folders it is
the same. -/
theorem exists_enter_of_follow {steps : List (List Char)}
    (h : d.follow (.folder at_) steps = .ok t) (hleaf : t.leaf? = some loc) :
    ∃ above name, steps.getLast? = some name ∧ d.enter above name = .ok t ∧
      ∀ d' : Directory, d.folders ⊆ d'.folders →
        d'.follow (.folder at_) steps = d'.enter above name := by
  induction steps generalizing at_ with
  | nil =>
    obtain rfl := Except.ok.inj h
    cases hleaf
  | cons name steps ih =>
    have hlater {last : List Char} (hlast : steps.getLast? = some last) :
        (name :: steps).getLast? = some last := by
      rw [List.getLast?_cons, hlast]
      rfl
    unfold follow at h ⊢
    split at h
    · next hdot =>
      simp only [if_pos hdot]
      obtain ⟨above, last, hlast, henter⟩ := ih h
      exact ⟨above, last, hlater hlast, henter⟩
    · next hdot =>
      simp only [if_neg hdot]
      split at h
      · next hup =>
        simp only [if_pos hup]
        obtain ⟨above, last, hlast, henter⟩ := ih h
        exact ⟨above, last, hlater hlast, henter⟩
      · next hup =>
        simp only [if_neg hup]
        cases henter : d.enter at_ name with
        | error fault =>
          rw [henter] at h
          cases h
        | ok next =>
          rw [henter] at h
          cases next with
          | folder inside =>
            obtain ⟨above, last, hlast, hfound, hsame⟩ := ih h
            refine ⟨above, last, hlater hlast, hfound, fun d' hfolders => ?_⟩
            rw [enter_folder hfolders henter]
            exact hsame d' hfolders
          | file _ _ | missing _ =>
            cases steps with
            | cons _ _ => cases h
            | nil =>
              obtain rfl := Except.ok.inj h
              refine ⟨at_, name, rfl, henter, fun d' _ => ?_⟩
              cases d'.enter at_ name <;> rfl

theorem lookup_map_of_some {files : List (Location × Bytes)} {old : Bytes}
    (h : files.lookup at_ = some old) :
    (files.map fun f => if f.1 = at_ then (at_, data) else f).lookup at_ = some data := by
  induction files with
  | nil => cases h
  | cons f files ih =>
    rw [List.map_cons, List.lookup_cons]
    rw [List.lookup_cons] at h
    by_cases hf : f.1 = at_
    · rw [if_pos hf]
      simp
    · have hne : (at_ == f.1) = false := beq_eq_false_iff_ne.mpr (Ne.symm hf)
      rw [hne] at h
      rw [if_neg hf, hne]
      exact ih h

theorem lookup_map_of_ne {other : Location} (hne : other ≠ at_) (files : List (Location × Bytes)) :
    (files.map fun f => if f.1 = at_ then (at_, data) else f).lookup other = files.lookup other := by
  induction files with
  | nil => rfl
  | cons f files ih =>
    rw [List.map_cons, List.lookup_cons, List.lookup_cons, ih]
    by_cases hf : f.1 = at_
    · rw [if_pos hf, hf, beq_eq_false_iff_ne.mpr hne]
    · rw [if_neg hf]

theorem lookup_concat_of_none {files : List (Location × Bytes)} (h : files.lookup at_ = none)
    (other : Location) :
    (files ++ [(at_, data)]).lookup other
      = if other = at_ then some data else files.lookup other := by
  rw [List.lookup_append]
  by_cases hother : other = at_
  · rw [if_pos hother, hother, h]
    simp
  · rw [if_neg hother, List.lookup_cons, beq_eq_false_iff_ne.mpr hother]
    exact Option.or_none

theorem exists_enter_of_walk {steps : List (List Char)}
    (h : d.walk p steps = .ok t) (hleaf : t.leaf? = some loc) :
    ∃ above name, steps.getLast? = some name ∧ d.enter above name = .ok t ∧
      ∀ d' : Directory, d.folders ⊆ d'.folders → d'.walk p steps = d'.enter above name := by
  unfold walk at h ⊢
  split at h
  · cases h
  · next hnull =>
    simp only [if_neg hnull]
    split at h
    · cases h
    · next hempty =>
      simp only [if_neg hempty]
      split at h
      · cases h
      · next hlong =>
        simp only [if_neg hlong]
        exact exists_enter_of_follow h hleaf

/-- A path that a file can be placed at does not ask for a folder, and leads where it says. -/
theorem walk_of_resolveNew (h : d.resolveNew p = .ok t) :
    asksFolder p = false ∧ d.walk p (steps p) = .ok t := by
  unfold resolveNew at h
  split at h
  · cases hwalk : d.walk p (steps p).dropLast with
    | error fault => rw [hwalk] at h; cases h
    | ok above => rw [hwalk] at h; cases above <;> cases h
  · next hasks =>
    have hasks : asksFolder p = false := Bool.eq_false_iff.mpr hasks
    unfold resolve at h
    cases hwalk : d.walk p (steps p) with
    | error fault => rw [hwalk] at h; cases h
    | ok found =>
      rw [hwalk] at h
      refine ⟨hasks, ?_⟩
      cases found with
      | folder _ | missing _ => exact h
      | file loc old =>
        replace h : (if asksFolder p = true then Except.error _ else .ok (Target.file loc old))
          = .ok t := h
        rw [hasks] at h
        exact h

theorem told_of_resolveNew (h : d.resolveNew p = .ok t)
    (hleaf : t.leaf? = some loc) : d.Told t := by
  obtain ⟨above, name, -, henter, -⟩ := exists_enter_of_walk (walk_of_resolveNew h).2 hleaf
  exact told_of_enter henter

/-- Where a leaf was, a file is found once it is there. -/
theorem resolve_of_leaf (hfolders : d.folders ⊆ d'.folders)
    (hfolder : loc ∉ d'.folders) (hfile : d'.files.lookup loc = some data)
    (hasks : asksFolder p = false) (h : d.walk p (steps p) = .ok t) (hleaf : t.leaf? = some loc) :
    d'.resolve p = .ok (.file loc data) := by
  obtain ⟨above, name, -, henter, hsame⟩ := exists_enter_of_walk h hleaf
  unfold resolve
  rw [hsame d' hfolders, enter_leaf hfolder hfile henter hleaf]
  show (if asksFolder p = true then _ else _) = _
  rw [hasks]
  rfl

theorem read_eq_some_iff :
    d.read p = .ok (some data) ↔ ∃ loc, d.resolve p = .ok (.file loc data) := by
  unfold read
  constructor
  · intro h
    split at h
    · next loc found hresolve =>
      obtain rfl := Option.some.inj (Except.ok.inj h)
      exact ⟨loc, hresolve⟩
    all_goals cases h
  · rintro ⟨loc, hresolve⟩
    rw [hresolve]

theorem walk_of_resolve (h : d.resolve p = .ok (.file loc data)) :
    asksFolder p = false ∧ d.walk p (steps p) = .ok (.file loc data) := by
  unfold resolve at h
  cases hwalk : d.walk p (steps p) with
  | error fault => rw [hwalk] at h; cases h
  | ok found =>
    rw [hwalk] at h
    cases found with
    | folder _ | missing _ => cases Except.ok.inj h
    | file at_ old =>
      replace h : (if asksFolder p = true then Except.error _ else .ok (Target.file at_ old))
        = .ok (.file loc data) := h
      split at h
      · cases h
      · next hasks => exact ⟨Bool.eq_false_iff.mpr hasks, h⟩

/-- Where a file is found: no folder is there, and the name is the last step. -/
theorem place_of_resolve (h : d.resolve p = .ok (.file loc data)) :
    loc ∉ d.folders ∧ d.files.lookup loc = some data ∧ loc.getLast? = (steps p).getLast? := by
  obtain ⟨above, name, hlast, henter, -⟩ := exists_enter_of_walk (walk_of_resolve h).2 rfl
  obtain ⟨hloc, hfolder⟩ := leaf_of_enter henter rfl
  refine ⟨hfolder, told_of_enter henter, ?_⟩
  rw [hlast, ← hloc, List.getLast?_concat]

/-- More folders and other files do not change where a file is found. -/
theorem resolve_of_subset (hfolders : d.folders ⊆ d'.folders) (hfolder : loc ∉ d'.folders)
    (hfile : d'.files.lookup loc = some data') (h : d.resolve p = .ok (.file loc data)) :
    d'.resolve p = .ok (.file loc data') := by
  obtain ⟨hasks, hwalk⟩ := walk_of_resolve h
  exact resolve_of_leaf hfolders hfolder hfile hasks hwalk rfl

/-! ### Folders that are made -/

theorem settled_snd (r : Except PathFault Unit × Directory) : (settled p r).2 = r.2 := by
  unfold settled
  split <;> rfl

/-- Every file of the first is found at the same place in the second. -/
def Extends (d d' : Directory) : Prop :=
  ∀ ⦃p loc data⦄, d.resolve p = .ok (.file loc data) → d'.resolve p = .ok (.file loc data)

theorem Extends.refl (d : Directory) : d.Extends d :=
  fun _ _ _ h => h

theorem Extends.trans (h : d.Extends d') (h' : d'.Extends d'') : d.Extends d'' :=
  fun _ _ _ hp => h' (h hp)

/-- What is kept when one folder is made is kept when several are. -/
theorem rel_makeFolders {R : Directory → Directory → Prop} (hrefl : ∀ d, R d d)
    (htrans : ∀ d d' d'', R d d' → R d' d'' → R d d'')
    (hmade : ∀ d p, R d (d.makeFolder p).2) (d : Directory) (ps : List Path) :
    R d (d.makeFolders ps).2 := by
  induction ps generalizing d with
  | nil => exact hrefl d
  | cons p ps ih =>
    have hfirst := hmade d p
    unfold makeFolders
    split
    · next d₁ h₁ =>
      rw [h₁] at hfirst
      have habove := htrans _ _ _ hfirst (ih d₁)
      split
      · next d₂ h₂ =>
        rw [h₂] at habove
        rw [settled_snd]
        exact htrans _ _ _ habove (hmade d₂ p)
      · next h₂ =>
        rw [h₂] at habove
        exact habove
    · rw [settled_snd]
      exact hfirst

variable (d p)

theorem extends_makeFolder : d.Extends (d.makeFolder p).2 := by
  unfold makeFolder
  split
  · exact .refl d
  · next at_ hwalk =>
    intro q loc data hq
    obtain ⟨hfolder, hfile, -⟩ := place_of_resolve hq
    obtain ⟨above, name, -, henter, -⟩ := exists_enter_of_walk hwalk rfl
    -- A folder is made where nothing is, so not where the file is.
    have hvacant : d.files.lookup at_ = none := told_of_enter henter
    have hne : loc ≠ at_ := by
      rintro rfl
      rw [hvacant] at hfile
      cases hfile
    refine resolve_of_subset (List.subset_append_left d.folders [at_]) ?_ hfile hq
    simp [hfolder, hne]
  · exact .refl d

theorem extends_makeFolders (ps : List Path) : d.Extends (d.makeFolders ps).2 :=
  rel_makeFolders .refl (fun _ _ _ => .trans) extends_makeFolder d ps

variable {d p}

/-! ### Files that are written -/

/-- What is placed is at the leaf to which its path leads, and nothing else is changed. -/
theorem exists_leaf_of_place (h : d.place p data = (.ok (), d')) :
    ∃ t loc, d.resolveNew p = .ok t ∧ t.leaf? = some loc ∧ d'.folders = d.folders ∧
      ∀ other, d'.files.lookup other = if other = loc then some data else d.files.lookup other := by
  unfold place at h
  split at h
  · next loc old hresolve =>
    obtain rfl := (Prod.mk.inj h).2
    refine ⟨_, loc, hresolve, rfl, rfl, fun other => ?_⟩
    split
    · next hother =>
      rw [hother]
      exact lookup_map_of_some (told_of_resolveNew hresolve rfl)
    · next hother => exact lookup_map_of_ne hother d.files
  · next loc hresolve =>
    obtain rfl := (Prod.mk.inj h).2
    exact ⟨_, loc, hresolve, rfl, rfl,
      lookup_concat_of_none (told_of_resolveNew hresolve rfl)⟩
  · cases (Prod.mk.inj h).1
  · cases (Prod.mk.inj h).1

/-- A file that is placed is found, and so are all others, with what they held. -/
theorem resolve_of_place (h : d.place p data = (.ok (), d')) :
    ∃ loc, d'.resolve p = .ok (.file loc data) ∧ ∀ ⦃q other old⦄,
      d.resolve q = .ok (.file other old) →
        d'.resolve q = .ok (.file other (if other = loc then data else old)) := by
  obtain ⟨t, loc, hresolve, hleaf, hfolders, hfiles⟩ := exists_leaf_of_place h
  have hsubset : d.folders ⊆ d'.folders := hfolders ▸ List.Subset.refl _
  refine ⟨loc, ?_, fun q other old hq => ?_⟩
  · obtain ⟨hasks, hwalk⟩ := walk_of_resolveNew hresolve
    obtain ⟨above, name, -, henter, -⟩ := exists_enter_of_walk hwalk hleaf
    have hfolder : loc ∉ d'.folders := hfolders ▸ (leaf_of_enter henter hleaf).2
    have hfile : d'.files.lookup loc = some data := by rw [hfiles, if_pos rfl]
    exact resolve_of_leaf hsubset hfolder hfile hasks hwalk hleaf
  · obtain ⟨hfolder, hfile, -⟩ := place_of_resolve hq
    refine resolve_of_subset hsubset (hfolders ▸ hfolder) ?_ hq
    rw [hfiles, hfile]
    split <;> rfl

theorem resolve_of_write (h : d.write p data = (.ok (), d')) :
    ∃ loc, d'.resolve p = .ok (.file loc data) ∧ ∀ ⦃q other old⦄,
      d.resolve q = .ok (.file other old) →
        d'.resolve q = .ok (.file other (if other = loc then data else old)) := by
  have hextends := extends_makeFolders d (p.parent.lineage (p.text.length + 1))
  unfold write at h
  rcases hfolders : d.makeFolders (p.parent.lineage (p.text.length + 1)) with ⟨made, d₁⟩
  rw [hfolders] at h hextends
  cases made with
  | error fault => cases (Prod.mk.inj h).1
  | ok =>
    rcases hplace : d₁.place p data with ⟨placed, d₂⟩
    simp only [hplace] at h
    obtain ⟨hplaced, rfl⟩ := Prod.mk.inj h
    cases placed with
    | error fault => cases hplaced
    | ok =>
      obtain ⟨loc, hp, hothers⟩ := resolve_of_place hplace
      exact ⟨loc, hp, fun q other old hq => hothers (hextends hq)⟩

/-- A file is read as it was written. -/
theorem read_write (h : d.write p data = (.ok (), d')) : d'.read p = .ok (some data) := by
  obtain ⟨loc, hresolve, -⟩ := resolve_of_write h
  exact read_eq_some_iff.mpr ⟨loc, hresolve⟩

/-! ### What a write leaves -/

/-- What the files of missions are named by. -/
def naming (d : Directory) : Path × String × String :=
  (d.root, d.planEnding, d.waylistEnding)

variable (d p)

theorem naming_makeFolder : (d.makeFolder p).2.naming = d.naming := by
  unfold makeFolder
  split <;> rfl

theorem naming_makeFolders (ps : List Path) : (d.makeFolders ps).2.naming = d.naming :=
  rel_makeFolders (R := fun d d' => d'.naming = d.naming) (fun _ => rfl)
    (fun _ _ _ h h' => h'.trans h) naming_makeFolder d ps

theorem naming_write (data : Bytes) : (d.write p data).2.naming = d.naming := by
  have hfolders := naming_makeFolders d (p.parent.lineage (p.text.length + 1))
  unfold write
  split
  · next h =>
    rw [h] at hfolders
    exact hfolders
  · next d₁ h =>
    rw [h] at hfolders
    refine Eq.trans ?_ hfolders
    show (d₁.place p data).2.naming = d₁.naming
    unfold place
    split <;> rfl

end Directory

/-- A file is read as it was written, in whatever kind of store. -/
theorem read_write {s s' : Store} {p : Path} {data : Bytes} (h : s.write p data = (.ok (), s')) :
    s'.read p = .ok (some data) := by
  cases s with
  | memory m =>
    obtain ⟨haccepted, rfl⟩ := Memory.write_eq_ok h
    show Except.ok ((m.write p data).2.get? p) = _
    rw [m.get?_write p p data haccepted, if_pos (Path.beq_iff_parts.mpr rfl)]
  | directory d =>
    obtain ⟨hok, rfl⟩ := Prod.mk.inj h
    exact Directory.read_write (Prod.ext hok rfl)

/-- What the files of missions are named by; in memory that is fixed. -/
def naming : Store → Option (Path × String × String)
  | memory _ => none
  | directory d => some d.naming

theorem naming_of_write {s s' : Store} {p : Path} {data : Bytes} {r : Except Fault Unit}
    (h : s.write p data = (r, s')) : s'.naming = s.naming := by
  obtain rfl := (Prod.mk.inj h).2
  cases s with
  | memory m => rfl
  | directory d => exact congrArg some (Directory.naming_write d p data)

/-- Stores that name files alike keep those of a mission at the same paths. -/
theorem paths_of_naming {s s' : Store} (h : s'.naming = s.naming) :
    s'.planPath = s.planPath ∧ s'.waylistPath = s.waylistPath := by
  cases s with
  | memory m =>
    cases s' with
    | memory m' => exact ⟨rfl, rfl⟩
    | directory d' => cases h
  | directory d =>
    cases s' with
    | memory m' => cases h
    | directory d' =>
      obtain ⟨hroot, hendings⟩ := Prod.mk.inj (Option.some.inj h)
      obtain ⟨hplan, hwaylist⟩ := Prod.mk.inj hendings
      unfold planPath waylistPath Directory.planPath Directory.waylistPath
      constructor
      · funext missionId
        dsimp only
        rw [hroot, hplan]
      · funext missionId
        dsimp only
        rw [hroot, hwaylist]

end Sortie.Store
