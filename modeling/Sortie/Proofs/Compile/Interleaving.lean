import Sortie.Proofs.Command.Waylist
import Sortie.Proofs.Compile.Isolation

/-!
# Two compilations at once

Two compilations of one id share the file of the plan and that of the waypoint list, and each access
of one may come between any two of the other (`Race`).  How far a side has come tells which files it
has written (`Stage`), and each file is that of the side that wrote it last (`Kept`); every step keeps
this up (`Race.Valid.step`).  A side writes its list before its plan, so the two files are of
different sides only if one side writes both while the other is between its writes (`exists_order`).

With a plan that can be used there is nothing to write.  Without one the two files agree exactly if
the plan, as it is read, holds the commands of the list that is left (`Race.leaves`).
-/

namespace Sortie.Compile

open Store.Memory (planPath waylistPath)

/-- One of the two compilations. -/
inductive Side where
  | left
  | right
  deriving DecidableEq, Repr

def Side.other : Side → Side
  | left => right
  | right => left

/-- Two compilations under way, and what they have written so far. -/
structure Race where
  tasks : Side → Task (Except CompileFault Compiled)
  depot : Depot
  writes : List (Side × Store.Path) := []

/-- Where the next access writes. -/
def written? : Task α → Option Store.Path
  | .write p _ _ => some p
  | _ => none

namespace Race

/-- One access of one side. -/
def step (r : Race) (x : Side) : Race where
  tasks := Function.update r.tasks x ((r.tasks x).step r.depot).1
  depot := ((r.tasks x).step r.depot).2
  writes := r.writes ++ ((written? (r.tasks x)).map (x, ·)).toList

/-- Accesses in the order in which the sides have their turns. -/
def run (r : Race) (turns : List Side) : Race :=
  turns.foldl step r

end Race

/-- The compilation that a call stands for, with its files in memory. -/
def Call.task (call : Call) : Task (Except CompileFault Compiled) :=
  call.mission.compile call.settings (planPath call.mission.id) (waylistPath call.mission.id)
    call.archive

def Race.start (calls : Side → Call) (files : Store.Memory) (kept : Archive) : Race where
  tasks x := (calls x).task
  depot := ⟨.memory files, kept⟩

/-! ### The course of a compilation -/

variable {call : Call}

/-- What is left to do once the plan has been written. -/
def Call.closing (call : Call) (commands : Sequence) : Task (Except CompileFault Compiled) :=
  let compiled := build call.mission (planPath call.mission.id) commands
  if call.archive then .saveMission compiled.mission (.done (.ok compiled))
  else .done (.ok compiled)

/-- What is left to do once the waypoint list has been written. -/
def Call.planning (call : Call) (commands : Sequence) : Task (Except CompileFault Compiled) :=
  .write (planPath call.mission.id)
    (build call.mission (planPath call.mission.id) commands).plan.toBytes fun
    | .error fault =>
      .remove (waylistPath call.mission.id) fun _ => .done (.error (.unableToSave fault))
    | .ok () => call.closing commands

/-- What is left to do once there are commands. -/
def Call.listing (call : Call) (commands : Sequence) (waylist : List Char) :
    Task (Except CompileFault Compiled) :=
  .write (waylistPath call.mission.id) (Text.encode waylist) fun
    | .error fault => .done (.error (.unableToSave fault))
    | .ok () => call.planning commands

theorem Call.task_eq (call : Call) :
    call.task = .read (planPath call.mission.id) fun found =>
      match stored? found with
      | some plan => .done (reuse call.mission (planPath call.mission.id) plan)
      | none =>
        match source call.mission call.settings with
        | .error fault => .done (.error fault)
        | .ok (commands, waylist) => call.listing commands waylist :=
  rfl

/-- The commands of a mission without a plan, and its waypoint list, if they can be made. -/
def Call.made? (call : Call) : Option (Sequence × List Char) :=
  (source call.mission call.settings).toOption

/-- The new plan of a call. -/
def Call.plan? (call : Call) : Option Plan :=
  call.made?.map fun made => (build call.mission (planPath call.mission.id) made.1).plan

/-- What a call writes at a path of its mission. -/
def Call.content? (call : Call) (q : Store.Path) : Option Text.Bytes :=
  if planPath call.mission.id == q then call.plan?.map Plan.toBytes
  else call.made?.map (Text.encode ·.2)

/-- How far a compilation is that has written at these paths. -/
inductive Stage (call : Call) :
    Task (Except CompileFault Compiled) → List Store.Path → Prop
  | reading : Stage call call.task []
  | failed (fault : CompileFault) : Stage call (.done (.error fault)) []
  | reused (c : Compiled) : Stage call (.done (.ok c)) []
  | listing {commands : Sequence} {waylist : List Char}
      (hmade : call.made? = some (commands, waylist)) : Stage call (call.listing commands waylist) []
  | planning {commands : Sequence} {waylist : List Char}
      (hmade : call.made? = some (commands, waylist)) :
      Stage call (call.planning commands) [waylistPath call.mission.id]
  | closing {commands : Sequence} {waylist : List Char}
      (hmade : call.made? = some (commands, waylist)) :
      Stage call (call.closing commands) [waylistPath call.mission.id, planPath call.mission.id]
  | closed {commands : Sequence} {waylist : List Char} (c : Compiled)
      (hmade : call.made? = some (commands, waylist)) :
      Stage call (.done (.ok c)) [waylistPath call.mission.id, planPath call.mission.id]

/-! ### Who has written a file -/

/-- Where one side has written. -/
def own (x : Side) (writes : List (Side × Store.Path)) : List Store.Path :=
  (writes.filter (·.1 = x)).map (·.2)

/-- The side that has written a file last. -/
def author? (q : Store.Path) (writes : List (Side × Store.Path)) : Option Side :=
  writes.foldl (fun last w => if w.2 == q then some w.1 else last) none

variable {calls : Side → Call} {files files' : Store.Memory} {kept : Archive} {id : String}
  {x y : Side} {q : Store.Path} {writes : List (Side × Store.Path)} {r : Race}

theorem own_concat_self : own x (writes ++ [(x, q)]) = own x writes ++ [q] := by
  simp [own]

theorem own_concat_of_ne (h : x ≠ y) : own y (writes ++ [(x, q)]) = own y writes := by
  simp [own, h]

theorem author?_concat (p : Store.Path) :
    author? p (writes ++ [(x, q)]) = if q == p then some x else author? p writes := by
  simp [author?]

theorem own_ne_nil_of_author? (h : author? q writes = some x) : own x writes ≠ [] := by
  induction writes using List.reverseRecOn with
  | nil => cases h
  | append_singleton writes w ih =>
    obtain ⟨y, p⟩ := w
    by_cases hxy : y = x
    · subst hxy
      rw [own_concat_self]
      simp
    · rw [own_concat_of_ne hxy]
      rw [author?_concat] at h
      split at h
      · exact absurd (Option.some.inj h) hxy
      · exact ih h

theorem author?_isSome_of_mem_own (h : q ∈ own x writes) : (author? q writes).isSome = true := by
  induction writes using List.reverseRecOn with
  | nil => cases h
  | append_singleton writes w ih =>
    obtain ⟨y, p⟩ := w
    rw [author?_concat]
    split
    · rfl
    · next hne =>
      refine ih ?_
      by_cases hxy : y = x
      · subst hxy
        rw [own_concat_self] at h
        rcases List.mem_append.mp h with h | h
        · exact h
        · obtain rfl := List.mem_singleton.mp h
          exact absurd (Store.Path.beq_iff_parts.mpr rfl) hne
      · rwa [own_concat_of_ne hxy] at h

/-- Each file is as its last author has written it. -/
structure Kept (calls : Side → Call) (files files' : Store.Memory)
    (writes : List (Side × Store.Path)) : Prop where
  accepts : ∀ q, files'.refuses q = false
  get : ∀ q, files'.get? q = (author? q writes).elim (files.get? q) fun x => (calls x).content? q

theorem content?_congr {p : Store.Path} (h : (q == p) = true) :
    call.content? q = call.content? p := by
  unfold Call.content?
  rw [Store.Path.beq_comm, Store.Path.beq_congr h, Store.Path.beq_comm]

theorem Kept.write (h : Kept calls files files' writes) {data : Text.Bytes}
    (hdata : (calls x).content? q = some data) :
    Kept calls files (files'.write q data).2 (writes ++ [(x, q)]) where
  accepts p := by rw [files'.refuses_write, h.accepts]
  get p := by
    rw [files'.get?_write q p data (h.accepts q), author?_concat]
    cases hpath : q == p with
    | false => exact h.get p
    | true => exact hdata.symm.trans (content?_congr hpath)

/-- What holds while two compilations of one id are under way, if there was no plan at first. -/
structure Race.Valid (calls : Side → Call) (id : String) (files : Store.Memory) (r : Race) :
    Prop where
  stage : ∀ x, Stage (calls x) (r.tasks x) (own x r.writes)
  kept : ∃ files' kept', r.depot = ⟨.memory files', kept'⟩ ∧ Kept calls files files' r.writes
  planned : ∀ x c, r.tasks x = .done (.ok c) → (author? (planPath id) r.writes).isSome = true

namespace Race

theorem valid_start (hopen : ∀ q, files.refuses q = false) :
    (start calls files kept).Valid calls id files where
  stage x := .reading
  kept := ⟨files, kept, rfl, hopen, fun q => rfl⟩
  planned x c h := by
    rw [show (start calls files kept).tasks x = (calls x).task from rfl, Call.task_eq] at h
    cases h

/-- A side moves on without writing. -/
theorem Valid.move (h : r.Valid calls id files) {t : Task (Except CompileFault Compiled)} {d : Depot}
    (hstore : d.store = r.depot.store) (hstage : Stage (calls x) t (own x r.writes))
    (hplanned : ∀ c, t = .done (.ok c) → (author? (planPath id) r.writes).isSome = true) :
    Valid calls id files ⟨Function.update r.tasks x t, d, r.writes⟩ where
  stage y := by
    by_cases hxy : y = x
    · subst hxy
      simpa using hstage
    · simpa [hxy] using h.stage y
  kept := by
    obtain ⟨files', kept', hdepot, hkept⟩ := h.kept
    refine ⟨files', d.archive, ?_, hkept⟩
    rw [hdepot] at hstore
    exact congrArg (Depot.mk · d.archive) hstore
  planned y c hy := by
    by_cases hxy : y = x
    · subst hxy
      exact hplanned c (by simpa using hy)
    · exact h.planned y c (by simpa [hxy] using hy)

/-- A side moves on with a write. -/
theorem Valid.moveWriting (h : r.Valid calls id files) {t : Task (Except CompileFault Compiled)}
    {data : Text.Bytes} {store : Store} (hdata : (calls x).content? q = some data)
    (hwrite : r.depot.store.write q data = (.ok (), store))
    (hstage : Stage (calls x) t (own x r.writes ++ [q]))
    (hplanned : ∀ c, t = .done (.ok c) → (q == planPath id) = true) :
    Valid calls id files
      ⟨Function.update r.tasks x t, { r.depot with store }, r.writes ++ [(x, q)]⟩ where
  stage y := by
    by_cases hxy : y = x
    · subst hxy
      rw [own_concat_self]
      simpa using hstage
    · rw [own_concat_of_ne (Ne.symm hxy)]
      simpa [hxy] using h.stage y
  kept := by
    obtain ⟨files', kept', hdepot, hkept⟩ := h.kept
    rw [hdepot] at hwrite
    obtain ⟨-, rfl⟩ := Store.Memory.write_eq_ok hwrite
    exact ⟨_, r.depot.archive, rfl, hkept.write hdata⟩
  planned y c hy := by
    rw [author?_concat]
    split
    · rfl
    · next hother =>
      by_cases hxy : y = x
      · subst hxy
        exact absurd (hplanned c (by simpa using hy)) hother
      · exact h.planned y c (by simpa [hxy] using hy)

theorem step_of_quiet {t : Task (Except CompileFault Compiled)} (htask : r.tasks x = t)
    (hquiet : written? t = none) :
    r.step x = ⟨Function.update r.tasks x (t.step r.depot).1, (t.step r.depot).2, r.writes⟩ := by
  unfold step
  rw [htask, hquiet]
  simp

/-- A waypoint list is never where the plan is. -/
theorem content?_waylistPath {commands : Sequence} {waylist : List Char}
    (hmade : call.made? = some (commands, waylist)) :
    call.content? (waylistPath call.mission.id) = some (Text.encode waylist) := by
  unfold Call.content?
  rw [Store.Memory.planPath_beq_waylistPath, if_neg Bool.false_ne_true, hmade]
  rfl

theorem content?_planPath {commands : Sequence} {waylist : List Char}
    (hmade : call.made? = some (commands, waylist)) :
    call.content? (planPath call.mission.id)
      = some (build call.mission (planPath call.mission.id) commands).plan.toBytes := by
  unfold Call.content? Call.plan?
  rw [if_pos (Store.Path.beq_iff_parts.mpr rfl), hmade]
  rfl

/-- The store takes every write. -/
theorem Valid.write_eq (h : r.Valid calls id files) (q : Store.Path) (data : Text.Bytes) :
    ∃ store, r.depot.store.write q data = (.ok (), store) := by
  obtain ⟨files', kept', hdepot, hkept⟩ := h.kept
  refine ⟨.memory (files'.write q data).2, ?_⟩
  rw [hdepot]
  show ((files'.write q data).1, Store.memory (files'.write q data).2) = _
  unfold Store.Memory.write
  rw [hkept.accepts q]
  rfl

/-- A plan that is found has been written by then. -/
theorem Valid.planned_of_stored (h : r.Valid calls id files)
    (hnone : stored? (.ok (files.get? (planPath id))) = none) {plan : Plan}
    (hfound : stored? (r.depot.store.read (planPath id)) = some plan) :
    (author? (planPath id) r.writes).isSome = true := by
  obtain ⟨files', kept', hdepot, hkept⟩ := h.kept
  rw [hdepot] at hfound
  have hget := hkept.get (planPath id)
  cases hauthor : author? (planPath id) r.writes with
  | some y => rfl
  | none =>
    rw [hauthor] at hget
    have hfound : stored? (.ok (files'.get? (planPath id))) = some plan := hfound
    rw [hget, Option.elim_none, hnone] at hfound
    cases hfound

theorem Valid.step (h : r.Valid calls id files) (hid : ∀ x, (calls x).mission.id = id)
    (hnone : stored? (.ok (files.get? (planPath id))) = none) (x : Side) :
    (r.step x).Valid calls id files := by
  have hstage := h.stage x
  have hplanned := h.planned x
  generalize htask : r.tasks x = t at hstage hplanned
  generalize hown : own x r.writes = paths at hstage
  cases hstage with
  | reading =>
    rw [step_of_quiet htask rfl, Call.task_eq]
    simp only [Task.step, hid x]
    cases hfound : stored? (r.depot.store.read (planPath id)) with
    | some plan =>
      obtain ⟨commands, -, hreuse⟩ := reuse_of_stored hfound (calls x).mission (planPath id)
      refine h.move rfl ?_ fun c _ => h.planned_of_stored hnone hfound
      dsimp only
      rw [hown, hreuse]
      exact .reused _
    | none =>
      cases hsource : source (calls x).mission (calls x).settings with
      | error fault =>
        refine h.move rfl ?_ fun c hc => by cases hc
        rw [hown]
        exact .failed fault
      | ok made =>
        obtain ⟨commands, waylist⟩ := made
        refine h.move rfl ?_ fun c hc => by cases hc
        rw [hown]
        exact .listing (by rw [Call.made?, hsource]; rfl)
  | failed fault =>
    rw [step_of_quiet htask rfl]
    exact h.move rfl (hown ▸ .failed fault) hplanned
  | reused c =>
    rw [step_of_quiet htask rfl]
    exact h.move rfl (hown ▸ .reused c) hplanned
  | closed c hmade =>
    rw [step_of_quiet htask rfl]
    exact h.move rfl (hown ▸ .closed c hmade) hplanned
  | closing hmade =>
    have hwritten : (author? (planPath id) r.writes).isSome = true := by
      refine author?_isSome_of_mem_own (x := x) ?_
      rw [hown, hid x]
      simp
    unfold Call.closing at htask
    dsimp only at htask
    split at htask
    · rw [step_of_quiet htask rfl]
      exact h.move rfl (hown ▸ .closed _ hmade) fun _ _ => hwritten
    · rw [step_of_quiet htask rfl]
      exact h.move rfl (hown ▸ .closed _ hmade) fun _ _ => hwritten
  | @listing commands waylist hmade =>
    obtain ⟨store, hwrite⟩ := h.write_eq (waylistPath (calls x).mission.id) (Text.encode waylist)
    have hstep : r.step x = ⟨Function.update r.tasks x ((calls x).planning commands),
        { r.depot with store }, r.writes ++ [(x, waylistPath (calls x).mission.id)]⟩ := by
      unfold Race.step
      rw [htask]
      simp only [Call.listing, Task.step, hwrite]
      rfl
    rw [hstep]
    refine h.moveWriting (content?_waylistPath hmade) hwrite ?_ fun c hc => by cases hc
    rw [hown]
    exact .planning hmade
  | @planning commands waylist hmade =>
    obtain ⟨store, hwrite⟩ := h.write_eq (planPath (calls x).mission.id)
      (build (calls x).mission (planPath (calls x).mission.id) commands).plan.toBytes
    have hstep : r.step x = ⟨Function.update r.tasks x ((calls x).closing commands),
        { r.depot with store }, r.writes ++ [(x, planPath (calls x).mission.id)]⟩ := by
      unfold Race.step
      rw [htask]
      simp only [Call.planning, Task.step, hwrite]
      rfl
    rw [hstep]
    refine h.moveWriting (content?_planPath hmade) hwrite ?_ fun c _ => ?_
    · rw [hown]
      exact .closing hmade
    · rw [hid x]
      exact Store.Path.beq_iff_parts.mpr rfl

theorem Valid.run (h : r.Valid calls id files) (hid : ∀ x, (calls x).mission.id = id)
    (hnone : stored? (.ok (files.get? (planPath id))) = none) (turns : List Side) :
    (r.run turns).Valid calls id files := by
  induction turns generalizing r with
  | nil => exact h
  | cons x turns ih => exact ih (h.step hid hnone x)

/-- Nothing has been done but to use the plan that is stored. -/
structure Quiet (calls : Side → Call) (d : Depot) (r : Race) : Prop where
  stage : ∀ x, r.tasks x = (calls x).task ∨ ∃ c, r.tasks x = .done (.ok c)
  depot : r.depot = d
  writes : r.writes = []

theorem Quiet.step {d : Depot} {plan : Plan} (h : r.Quiet calls d)
    (hid : ∀ x, (calls x).mission.id = id)
    (hstored : stored? (d.store.read (planPath id)) = some plan) (x : Side) :
    (r.step x).Quiet calls d := by
  obtain ⟨c, hstep⟩ : ∃ c, r.step x = ⟨Function.update r.tasks x (.done (.ok c)), d, []⟩ := by
    obtain ⟨tasks, depot, writes⟩ := r
    obtain ⟨hstage, rfl, rfl⟩ := h
    rcases hstage x with htask | ⟨c, htask⟩
    · obtain ⟨c, hreuse⟩ : ∃ c, reuse (calls x).mission (planPath id) plan = .ok c := by
        obtain ⟨commands, -, hreuse⟩ := reuse_of_stored hstored (calls x).mission (planPath id)
        exact ⟨_, hreuse⟩
      refine ⟨c, ?_⟩
      rw [step_of_quiet htask rfl, Call.task_eq]
      simp only [Task.step, hid x, hstored, hreuse]
    · exact ⟨c, step_of_quiet htask rfl⟩
  rw [hstep]
  refine ⟨fun y => ?_, rfl, rfl⟩
  by_cases hxy : y = x
  · subst hxy
    exact .inr ⟨c, by simp⟩
  · simpa [hxy] using h.stage y

theorem Quiet.run {d : Depot} {plan : Plan} (h : r.Quiet calls d)
    (hid : ∀ x, (calls x).mission.id = id)
    (hstored : stored? (d.store.read (planPath id)) = some plan) (turns : List Side) :
    (r.run turns).Quiet calls d := by
  induction turns generalizing r with
  | nil => exact h
  | cons x turns ih => exact ih (h.step hid hstored x)

end Race

/-! ### The order of the writes -/

/-- The writes of one compilation lie between those of the other. -/
def Enclosed (id : String) (outer inner : Side) (writes : List (Side × Store.Path)) : Prop :=
  writes = [(outer, waylistPath id), (inner, waylistPath id), (inner, planPath id),
    (outer, planPath id)]

theorem Side.eq_or_eq_other (x y : Side) : y = x ∨ y = x.other := by
  cases x <;> cases y <;> simp [Side.other]

theorem Side.other_ne (x : Side) : x.other ≠ x := by
  cases x <;> simp [Side.other]

theorem Side.other_other (x : Side) : x.other.other = x := by
  cases x <;> rfl

theorem own_cons_self : own x ((x, q) :: writes) = q :: own x writes := by
  simp [own]

theorem own_cons_of_ne (h : x ≠ y) : own y ((x, q) :: writes) = own y writes := by
  simp [own, h]

/-- Without writes of one side, all are of the other. -/
theorem eq_map_of_own_nil (h : own x writes = []) :
    writes = (own x.other writes).map (x.other, ·) := by
  induction writes with
  | nil => rfl
  | cons w writes ih =>
    obtain ⟨y, q⟩ := w
    rcases x.eq_or_eq_other y with rfl | rfl
    · rw [own_cons_self] at h
      cases h
    · rw [own_cons_of_ne x.other_ne] at h
      rw [own_cons_self, List.map_cons, ← ih h]

/-- The first write is of one side or of the other. -/
theorem own_cases (x : Side) (hne : writes ≠ []) :
    (∃ q rest, writes = (x, q) :: rest ∧ own x writes = q :: own x rest ∧
      own x.other writes = own x.other rest) ∨
    ∃ q rest, writes = (x.other, q) :: rest ∧ own x.other writes = q :: own x.other rest ∧
      own x writes = own x rest := by
  obtain ⟨⟨y, q⟩, rest, rfl⟩ := List.exists_cons_of_ne_nil hne
  rcases x.eq_or_eq_other y with rfl | rfl
  · exact .inl ⟨q, rest, rfl, own_cons_self, own_cons_of_ne y.other_ne.symm⟩
  · exact .inr ⟨q, rest, rfl, own_cons_self, own_cons_of_ne x.other_ne⟩

theorem ne_nil_of_own {paths : List Store.Path} (h : own x writes = q :: paths) : writes ≠ [] := by
  rintro rfl
  cases h

section Orders

variable {l p : Store.Path}

/-- Both sides have a last write to make. -/
theorem eq_of_own_last (hx : own x writes = [p]) (hother : own x.other writes = [p]) :
    writes = [(x, p), (x.other, p)] ∨ writes = [(x.other, p), (x, p)] := by
  rcases own_cases x (ne_nil_of_own hx) with
    ⟨q, rest, rfl, hself, hrest⟩ | ⟨q, rest, rfl, hself, hrest⟩
  · obtain ⟨rfl, hnil⟩ := List.cons.inj (hself.symm.trans hx)
    rw [eq_map_of_own_nil hnil, ← hrest, hother]
    exact .inl rfl
  · obtain ⟨rfl, hnil⟩ := List.cons.inj (hself.symm.trans hother)
    have hmap := eq_map_of_own_nil hnil
    rw [Side.other_other, ← hrest, hx] at hmap
    rw [hmap]
    exact .inr rfl

/-- The orders in which two compilations that are done can have made their writes. -/
inductive Order (l p : Store.Path) (x : Side) : List (Side × Store.Path) → Prop
  | alone : Order l p x [(x, l), (x, p)]
  | apart : Order l p x [(x.other, l), (x.other, p), (x, l), (x, p)]
  | overtaken : Order l p x [(x.other, l), (x, l), (x.other, p), (x, p)]
  | enclosing : Order l p x [(x, l), (x.other, l), (x.other, p), (x, p)]

theorem exists_order (hown : ∀ x, own x writes = [] ∨ own x writes = [l, p]) (hne : writes ≠ []) :
    ∃ x, Order l p x writes := by
  obtain ⟨⟨x, q⟩, rest, rfl⟩ := List.exists_cons_of_ne_nil hne
  have hfirst := hown x
  have hother := hown x.other
  rw [own_cons_self] at hfirst
  rw [own_cons_of_ne x.other_ne.symm] at hother
  obtain ⟨hq, hx⟩ := List.cons.inj (hfirst.resolve_left (List.cons_ne_nil _ _))
  subst q
  rcases own_cases x (ne_nil_of_own hx) with
    ⟨q, rest, rfl, hself, hrest⟩ | ⟨q, rest, rfl, hself, hrest⟩
  · obtain ⟨hq, hnil⟩ := List.cons.inj (hself.symm.trans hx)
    subst q
    rw [hrest] at hother
    rw [eq_map_of_own_nil hnil]
    rcases hother with hother | hother
    · rw [hother]
      exact ⟨x, .alone⟩
    · rw [hother]
      refine ⟨x.other, ?_⟩
      have h : Order l p x.other _ := .apart
      rwa [Side.other_other] at h
  · obtain ⟨hq, hlast⟩ := List.cons.inj (hself.symm.trans (hother.resolve_left (by simp [hself])))
    subst q
    rcases eq_of_own_last (hrest.symm.trans hx) hlast with rfl | rfl
    · refine ⟨x.other, ?_⟩
      have h : Order l p x.other _ := .overtaken
      rwa [Side.other_other] at h
    · exact ⟨x, .enclosing⟩

end Orders

/-- Who has written the files, once two compilations are done. -/
theorem exists_authors
    (hown : ∀ x, own x writes = [] ∨ own x writes = [waylistPath id, planPath id])
    (hplanned : (author? (planPath id) writes).isSome = true) :
    ∃ a b, author? (waylistPath id) writes = some a ∧ author? (planPath id) writes = some b ∧
      (a ≠ b ↔ Enclosed id b a writes) := by
  have hne : writes ≠ [] := by
    rintro rfl
    cases hplanned
  have hself (q : Store.Path) : (q == q) = true := Store.Path.beq_iff_parts.mpr rfl
  have hplan := Store.Memory.planPath_beq_waylistPath id id
  have hlist : (waylistPath id == planPath id) = false := Store.Path.beq_comm _ _ ▸ hplan
  obtain ⟨x, horder⟩ := exists_order hown hne
  cases horder with
  | alone =>
    refine ⟨x, x, ?_, ?_, by simp [Enclosed]⟩
    · simp [author?, hself, hplan]
    · simp [author?, hself, hlist]
  | apart | overtaken =>
    refine ⟨x, x, ?_, ?_, by simp [Enclosed, Side.other_ne]⟩
    · simp [author?, hself, hplan]
    · simp [author?, hself, hlist]
  | enclosing =>
    refine ⟨x.other, x, ?_, ?_, by simp [Enclosed, Side.other_ne]⟩
    · simp [author?, hself, hplan]
    · simp [author?, hself, hlist]

/-! ### What the files say -/

/-- The commands that a waypoint list in a file holds. -/
def listed? : Except Store.Fault (Option Text.Bytes) → Option Sequence
  | .ok (some bytes) => (Text.decode? bytes).bind fun text => (Waylist.read text).toOption
  | _ => none

/-- The commands that a plan in a file holds. -/
def planned? (found : Except Store.Fault (Option Text.Bytes)) : Option Sequence :=
  (stored? found).bind (·.commands.toOption)

/-- The plan and the waypoint list of an id are there and hold the same commands. -/
def Agree (id : String) (store : Store) : Prop :=
  ∃ commands, listed? (store.read (waylistPath id)) = some commands ∧
    planned? (store.read (planPath id)) = some commands

/-- The waypoint list that goes with commands holds them. -/
theorem read_of_source {m : Mission} (hm : m.Fits) {s : CompileSettings} {commands : Sequence}
    {waylist : List Char} (h : source m s = .ok (commands, waylist)) :
    Waylist.read waylist = .ok commands := by
  unfold source at h
  split at h
  · split at h
    · next hread =>
      obtain ⟨rfl, rfl⟩ := Prod.mk.inj (Except.ok.inj h)
      exact hread
    · cases h
  · split at h
    · obtain ⟨rfl, rfl⟩ := Prod.mk.inj (Except.ok.inj h)
      exact (Waylist.read_write_eq _).trans (Sequence.ofItems_toItems (hm.generate s))
    · cases h

theorem source_of_made? {commands : Sequence} {waylist : List Char}
    (h : call.made? = some (commands, waylist)) :
    source call.mission call.settings = .ok (commands, waylist) := by
  unfold Call.made? at h
  cases hsource : source call.mission call.settings with
  | error fault => rw [hsource] at h; cases h
  | ok made => rw [hsource] at h; rw [Option.some.inj h]

/-- The commands of the new plan of a call. -/
def Call.commands? (call : Call) : Option Sequence :=
  call.made?.map (·.1)

theorem listed?_content? (hcall : call.mission.Fits) :
    listed? (.ok (call.content? (waylistPath call.mission.id))) = call.commands? := by
  unfold Call.content? Call.commands?
  rw [Store.Memory.planPath_beq_waylistPath, if_neg Bool.false_ne_true]
  cases hmade : call.made? with
  | none => rfl
  | some made =>
    obtain ⟨commands, waylist⟩ := made
    show (Text.decode? (Text.encode waylist)).bind (fun text => (Waylist.read text).toOption) = _
    rw [Text.decode?_encode, Option.bind_some, read_of_source hcall (source_of_made? hmade)]
    rfl

/-- A new plan is read number by number. -/
theorem planned?_content? (hcall : call.mission.Fits) :
    planned? (.ok (call.content? (planPath call.mission.id)))
      = (call.plan?.bind Plan.reread).bind (·.commands.toOption) := by
  unfold Call.content? Call.plan?
  rw [if_pos (Store.Path.beq_iff_parts.mpr rfl)]
  cases call.made? with
  | none => rfl
  | some made =>
    have hfits : (build call.mission (planPath call.mission.id) made.1).plan.Fits :=
      Plan.fits_ofMission hcall.frameRate
    show (stored? (.ok (some (build call.mission _ made.1).plan.toBytes))).bind _ = _
    rw [stored?_toBytes hfits]
    show _ = ((build call.mission (planPath call.mission.id) made.1).plan.reread).bind _
    cases (build call.mission (planPath call.mission.id) made.1).plan.reread with
    | none => rfl
    | some plan =>
      rw [Option.filter_some]
      cases hc : plan.commands <;> simp [hc, Except.isOk, Except.toBool, Except.toOption]

/-- A side that has written had commands. -/
theorem Stage.exists_made {t : Task (Except CompileFault Compiled)} {paths : List Store.Path}
    (h : Stage call t paths) (hne : paths ≠ []) : ∃ made, call.made? = some made := by
  cases h with
  | planning hmade | closing hmade | closed _ hmade => exact ⟨_, hmade⟩
  | reading | failed | reused | listing => exact absurd rfl hne

/-- A side that is done has written both files or none. -/
theorem Stage.paths_of_done {c : Compiled} {paths : List Store.Path}
    (h : Stage call (.done (.ok c)) paths) :
    paths = [] ∨ paths = [waylistPath call.mission.id, planPath call.mission.id] := by
  generalize ht : (Task.done (.ok c) : Task (Except CompileFault Compiled)) = t at h
  cases h with
  | reading | failed | reused | listing => exact .inl rfl
  | closing | closed => exact .inr rfl
  | planning hmade => cases ht

/-- The files are those of the side `a` with these commands and the side `b` with this plan. -/
structure Race.Leaves (calls : Side → Call) (id : String) (r : Race) (a b : Side)
    (commands : Sequence) (plan : Plan) : Prop where
  listAuthor : author? (waylistPath id) r.writes = some a
  planAuthor : author? (planPath id) r.writes = some b
  made : (calls a).commands? = some commands
  planned : (calls b).plan? = some plan
  list : listed? (r.depot.store.read (waylistPath id)) = some commands
  plan : r.depot.store.read (planPath id) = .ok (some plan.toBytes)

/-- Without a plan at first, what two compilations leave that are done. -/
theorem Race.Valid.exists_leaves (h : r.Valid calls id files)
    (hid : ∀ x, (calls x).mission.id = id) (hfits : ∀ x, (calls x).mission.Fits)
    (hdone : ∀ x, ∃ c, r.tasks x = .done (.ok c)) :
    ∃ a b commands plan, r.Leaves calls id a b commands plan ∧ (a ≠ b ↔ Enclosed id b a r.writes) ∧
      (Agree id r.depot.store ↔
        ∃ reread, plan.reread = some reread ∧ reread.commands = .ok commands) := by
  have hown (x : Side) : own x r.writes = [] ∨ own x r.writes = [waylistPath id, planPath id] := by
    obtain ⟨c, hc⟩ := hdone x
    have hstage := h.stage x
    rw [hc] at hstage
    exact hid x ▸ hstage.paths_of_done
  obtain ⟨c, hc⟩ := hdone .left
  obtain ⟨a, b, ha, hb, hcrossed⟩ := exists_authors hown (h.planned .left c hc)
  obtain ⟨⟨commands, waylist⟩, hmade⟩ := (h.stage a).exists_made (own_ne_nil_of_author? ha)
  obtain ⟨⟨commands', waylist'⟩, hmade'⟩ := (h.stage b).exists_made (own_ne_nil_of_author? hb)
  let plan := (build (calls b).mission (planPath (calls b).mission.id) commands').plan
  obtain ⟨files', kept', hdepot, hkept⟩ := h.kept
  have hread (q : Store.Path) : r.depot.store.read q = .ok (files'.get? q) := by
    rw [hdepot]
    rfl
  have hlist : listed? (r.depot.store.read (waylistPath id)) = some commands := by
    rw [hread, hkept.get, ha, Option.elim_some, ← hid a, listed?_content? (hfits a), Call.commands?,
      hmade]
    rfl
  have hplan : (calls b).plan? = some plan := by
    rw [Call.plan?, hmade']
    rfl
  have hbytes : r.depot.store.read (planPath id) = .ok (some plan.toBytes) := by
    rw [hread, hkept.get, hb, Option.elim_some, ← hid b, content?_planPath hmade']
  have hplanned : planned? (r.depot.store.read (planPath id))
      = plan.reread.bind (·.commands.toOption) := by
    rw [hread, hkept.get, hb, Option.elim_some, ← hid b, planned?_content? (hfits b), hplan]
    rfl
  refine ⟨a, b, commands, plan, ⟨ha, hb, ?_, hplan, hlist, hbytes⟩, hcrossed, ?_⟩
  · rw [Call.commands?, hmade]
    rfl
  · unfold Agree
    rw [hlist, hplanned]
    constructor
    · rintro ⟨_, hsame, hbind⟩
      obtain rfl := Option.some.inj hsame
      obtain ⟨reread, hreread, hcommands⟩ := Option.bind_eq_some_iff.mp hbind
      exact ⟨reread, hreread, toOption_eq_some_iff.mp hcommands⟩
    · rintro ⟨reread, hreread, hcommands⟩
      refine ⟨commands, rfl, ?_⟩
      rw [hreread, Option.bind_some, toOption_eq_some_iff, hcommands]

/-- **What two compilations of one id leave.** -/
theorem Race.leaves (hid : ∀ x, (calls x).mission.id = id) (hfits : ∀ x, (calls x).mission.Fits)
    (hopen : ∀ q, files.refuses q = false) {turns : List Side}
    (hdone : ∀ x, ∃ c, ((start calls files kept).run turns).tasks x = .done (.ok c)) :
    let r := (start calls files kept).run turns
    (∀ plan, stored? (.ok (files.get? (planPath id))) = some plan →
      r.writes = [] ∧ r.depot = ⟨.memory files, kept⟩) ∧
    (stored? (.ok (files.get? (planPath id))) = none →
      ∃ a b commands plan, r.Leaves calls id a b commands plan ∧
        (a ≠ b ↔ Enclosed id b a r.writes) ∧
        (Agree id r.depot.store ↔
          ∃ reread, plan.reread = some reread ∧ reread.commands = .ok commands)) := by
  refine ⟨fun plan hstored => ?_, fun hnone => ?_⟩
  · have hquiet : (start calls files kept).Quiet calls ⟨.memory files, kept⟩ :=
      ⟨fun _ => .inl rfl, rfl, rfl⟩
    obtain ⟨-, hdepot, hwrites⟩ := hquiet.run hid hstored turns
    exact ⟨hwrites, hdepot⟩
  · exact ((valid_start hopen).run hid hnone turns).exists_leaves hid hfits hdone

/-! ### Two missions of one id -/

/-- The same mission before and after an edit that has the aircraft return in the end. -/
def editedCalls : Side → Call
  | .left => { mission := bareMission "field" }
  | .right => { mission := { bareMission "field" with rth := { onCompletion := true } } }

theorem fits_editedCalls (x : Side) : (editedCalls x).mission.Fits := by
  cases x <;> exact ⟨by simp [editedCalls, bareMission], by simp [editedCalls, bareMission],
    by simp [editedCalls, bareMission]⟩

/-- The right side writes both files while the left one is between its writes. -/
def crossedTurns : List Side :=
  [.left, .left, .right, .right, .right, .left]

theorem done_crossedTurns (x : Side) : ∃ c,
    ((Race.start editedCalls {} {}).run crossedTurns).tasks x = .done (.ok c) := by
  cases x <;> exact ⟨_, rfl⟩

theorem writes_crossedTurns : ((Race.start editedCalls {} {}).run crossedTurns).writes
    = [(.left, waylistPath "field"), (.right, waylistPath "field"), (.right, planPath "field"),
      (.left, planPath "field")] :=
  rfl

theorem leaves_crossedTurns :
    let r := (Race.start editedCalls {} {}).run crossedTurns
    ∃ a b commands plan, r.Leaves editedCalls "field" a b commands plan ∧
      Enclosed "field" b a r.writes := by
  have hid (x : Side) : (editedCalls x).mission.id = "field" := by cases x <;> rfl
  have hread : stored? (.ok (Store.Memory.get? {} (planPath "field"))) = none := rfl
  obtain ⟨a, b, commands, plan, hleaves, hcrossed, -⟩ :=
    (Race.leaves hid fits_editedCalls (fun _ => rfl) done_crossedTurns).2 hread
  have ha : author? (waylistPath "field") _ = some a := writes_crossedTurns ▸ hleaves.listAuthor
  have hb : author? (planPath "field") _ = some b := writes_crossedTurns ▸ hleaves.planAuthor
  obtain rfl : .right = a := Option.some.inj ha
  obtain rfl : .left = b := Option.some.inj hb
  exact ⟨.right, .left, commands, plan, hleaves, hcrossed.mp (by decide)⟩

/-- The files that two compilations of one id leave do not always agree. -/
theorem not_forall_agree :
    ¬ ∀ (calls : Side → Call) (id : String) (files : Store.Memory) (kept : Archive)
      (turns : List Side), (∀ x, (calls x).mission.id = id) → (∀ x, (calls x).mission.Fits) →
      (∀ q, files.refuses q = false) →
      (∀ x, ∃ c, ((Race.start calls files kept).run turns).tasks x = .done (.ok c)) →
      Agree id ((Race.start calls files kept).run turns).depot.store := by
  intro hall
  have hid (x : Side) : (editedCalls x).mission.id = "field" := by cases x <;> rfl
  have hread : stored? (.ok (Store.Memory.get? {} (planPath "field"))) = none := rfl
  have hagree := hall editedCalls "field" {} {} crossedTurns hid fits_editedCalls (fun _ => rfl)
    done_crossedTurns
  obtain ⟨a, b, commands, plan, hleaves, -, hiff⟩ :=
    ((Race.valid_start (fun _ => rfl)).run hid hread crossedTurns).exists_leaves hid
      fits_editedCalls done_crossedTurns
  have ha : author? (waylistPath "field") _ = some a := writes_crossedTurns ▸ hleaves.listAuthor
  have hb : author? (planPath "field") _ = some b := writes_crossedTurns ▸ hleaves.planAuthor
  obtain rfl : .right = a := Option.some.inj ha
  obtain rfl : .left = b := Option.some.inj hb
  obtain rfl : [.stopVideo, .delay 2, .returnToLaunch] = commands := Option.some.inj hleaves.made
  obtain rfl : barePlan "field" = plan := Option.some.inj hleaves.planned
  obtain ⟨reread, hreread, hcommands⟩ := hiff.mp hagree
  rw [reread_barePlan] at hreread
  obtain rfl := Option.some.inj hreread
  rw [commands_barePlan] at hcommands
  exact absurd (Except.ok.inj hcommands) (by decide)

end Sortie.Compile
