import Mathlib.Data.List.Induction
import Mathlib.Logic.Function.Basic
import Sortie.Task

/-!
# Executions started at once

A start reads the executions of its mission and then keeps a record with the next rank.  A `Rush` is
any number of starts of one mission under way, with their accesses in any order.

As long as never two starts are between their accesses at the same time, the record that is about to
be kept has the next rank and those given back have different ranks (`Rush.Orderly.step`).  Once two
are, both have the same rank (`Rush.Orderly.tied`), and no later access takes that back
(`Rush.Tied.step`).  So the ranks given back differ exactly if no two starts have been between their
accesses at the same time (`Rush.apart_iff`).
-/

namespace Sortie.Archive

/-! ### Ranks -/

/-- The highest rank, and zero if there is none. -/
def topRank (es : List Execution) : Nat :=
  (es.map (·.rank)).max?.getD 0

variable {es : List Execution} {e e' : Execution} {rank : Nat}

theorem rank_le_topRank (h : e ∈ es) : e.rank ≤ topRank es :=
  List.le_max?_getD_of_mem (List.mem_map_of_mem h)

theorem rankAfter_eq :
    rankAfter es =
      if topRank es + 1 < rankLimit then .ok (topRank es + 1) else .error .overflow := by
  unfold rankAfter topRank
  cases (es.map (·.rank)).max? with
  | none => rfl
  | some rank => rfl

theorem mem_replaceOrAdd {α : Type} {like : α → Bool} {b : α} (l : List α) :
    b ∈ replaceOrAdd like b l := by
  induction l with
  | nil => exact List.mem_singleton_self b
  | cons a rest ih =>
    unfold replaceOrAdd
    split
    · exact List.mem_cons_self
    · exact List.mem_cons_of_mem a ih

theorem mem_executionsOf_saveExecution (a : Archive) (e : Execution) :
    e ∈ (a.saveExecution e).executionsOf e.missionId :=
  List.mem_filter.mpr ⟨mem_replaceOrAdd a.executions, decide_eq_true rfl⟩

/-! ### The course of a start -/

/-- A start that a caller has asked for. -/
structure Start where
  mission : Mission
  id : String
  now : Clock.Instant

def Start.task (c : Start) : Task (Except Fault Execution) :=
  startExecution c.mission c.id c.now

def Start.record (c : Start) (rank : Nat) : Execution where
  mission := c.mission
  id := c.id
  rank
  recovery := none
  startedAt := c.now

/-- What is left of a start that has looked for its rank. -/
def Start.keeping (c : Start) : Except Fault Nat → Task (Except Fault Execution)
  | .error fault => .done (.error fault)
  | .ok rank => .saveExecution (c.record rank) (.done (.ok (c.record rank)))

/-- How far a start is. -/
inductive Stage (c : Start) : Task (Except Fault Execution) → Prop
  | outset : Stage c c.task
  | keeping (found : Except Fault Nat) : Stage c (c.keeping found)
  | kept (rank : Nat) : Stage c (.done (.ok (c.record rank)))

/-- What the next access keeps. -/
def keeps? : Task α → Option Execution
  | .saveExecution e _ => some e
  | _ => none

/-- The record that a start has made, be it kept or not. -/
def made? : Task (Except Fault Execution) → Option Execution
  | .saveExecution e _ => some e
  | .done (.ok e) => some e
  | _ => none

theorem made?_of_keeps? {task : Task (Except Fault Execution)} (h : keeps? task = some e) :
    made? task = some e := by
  cases task with
  | saveExecution x next => exact h
  | _ => cases h

theorem exists_of_keeps?_keeping {c : Start} {found : Except Fault Nat}
    (h : keeps? (c.keeping found) = some e) : ∃ rank, found = .ok rank ∧ e = c.record rank := by
  cases found with
  | error fault => cases h
  | ok rank => exact ⟨rank, rfl, (Option.some.inj h).symm⟩

theorem Start.keeping_ne (c : Start) {found : Except Fault Nat} :
    c.keeping found ≠ .done (.ok e) := by
  cases found with
  | error fault => exact nofun
  | ok rank => exact nofun

/-- A record whose rank has just been looked for has the next rank. -/
theorem rank_of_keeping {c : Start} (h : keeps? (c.keeping (rankAfter es)) = some e) :
    e.rank = topRank es + 1 := by
  obtain ⟨rank, hfound, rfl⟩ := exists_of_keeps?_keeping h
  rw [rankAfter_eq] at hfound
  split at hfound
  · exact (Except.ok.inj hfound).symm
  · cases hfound

/-! ### Starts under way -/

/-- Starts under way, each with what is left of it. -/
structure Rush (ι : Type) where
  tasks : ι → Task (Except Fault Execution)
  depot : Depot

namespace Rush

variable {ι : Type} [DecidableEq ι]

/-- What is left of the start `i` and what all share, as they are from now on. -/
def put (r : Rush ι) (i : ι) (next : Task (Except Fault Execution) × Depot) : Rush ι where
  tasks := Function.update r.tasks i next.1
  depot := next.2

/-- One access of one start. -/
def step (r : Rush ι) (i : ι) : Rush ι :=
  r.put i ((r.tasks i).step r.depot)

/-- Accesses in the order in which the starts have their turns. -/
def run (r : Rush ι) (turns : List ι) : Rush ι :=
  turns.foldl step r

def start (calls : ι → Start) (d : Depot) : Rush ι where
  tasks i := (calls i).task
  depot := d

/-- What comes of the access by which a start looks for its rank. -/
def looked (r : Rush ι) (c : Start) : Task (Except Fault Execution) × Depot :=
  (c.keeping (rankAfter (r.depot.archive.executionsOf c.mission.id)), r.depot)

/-- What comes of the access by which a start keeps its record. -/
def kept (r : Rush ι) (c : Start) (rank : Nat) : Task (Except Fault Execution) × Depot :=
  (.done (.ok (c.record rank)),
    { r.depot with archive := r.depot.archive.saveExecution (c.record rank) })

/-- The start `i` has given back `e`. -/
def Returns (r : Rush ι) (i : ι) (e : Execution) : Prop :=
  r.tasks i = .done (.ok e)

/-- Two starts are between their accesses. -/
def Crowded (r : Rush ι) : Prop :=
  ∃ i j, i ≠ j ∧ (keeps? (r.tasks i)).isSome ∧ (keeps? (r.tasks j)).isSome

/-- The ranks given back are pairwise different. -/
def Apart (r : Rush ι) : Prop :=
  ∀ ⦃i j e e'⦄, i ≠ j → r.Returns i e → r.Returns j e' → e.rank ≠ e'.rank

/-- Two starts have made records of one rank. -/
def Tied (r : Rush ι) : Prop :=
  ∃ i j e e', i ≠ j ∧ made? (r.tasks i) = some e ∧ made? (r.tasks j) = some e' ∧
    e.rank = e'.rank

/-- The highest rank of the mission `id`. -/
def top (r : Rush ι) (id : String) : Nat :=
  topRank (r.depot.archive.executionsOf id)

/-- At most one start is between its accesses, and its record is about to be the youngest. -/
structure Orderly (id : String) (r : Rush ι) : Prop where
  alone : ¬ r.Crowded
  next : ∀ i e, keeps? (r.tasks i) = some e → e.rank = r.top id + 1
  below : ∀ i e, r.Returns i e → e.rank ≤ r.top id
  apart : r.Apart

variable {calls : ι → Start} {id : String} {r : Rush ι} {turns : List ι} {i j : ι}
  {next : Task (Except Fault Execution) × Depot}

theorem tasks_put_self : (r.put i next).tasks i = next.1 :=
  Function.update_self ..

theorem tasks_put_of_ne (h : j ≠ i) : (r.put i next).tasks j = r.tasks j :=
  Function.update_of_ne h ..

/-- What an access does: nothing, or it looks for the rank, or it keeps the record. -/
theorem step_cases (h : Stage (calls i) (r.tasks i)) :
    r.step i = r ∨
    (made? (r.tasks i) = none ∧ r.step i = r.put i (r.looked (calls i))) ∨
    ∃ rank, r.tasks i = (calls i).keeping (.ok rank) ∧
      r.step i = r.put i (r.kept (calls i) rank) := by
  have hidle {a : Except Fault Execution} (ha : r.tasks i = .done a) : r.step i = r := by
    rw [step, ha, Task.step, put, ← ha, Function.update_eq_self]
  generalize htask : r.tasks i = task at h
  cases h with
  | outset =>
    refine .inr (.inl ⟨rfl, ?_⟩)
    rw [step, htask]
    rfl
  | keeping found =>
    cases found with
    | error fault => exact .inl (hidle htask)
    | ok rank =>
      refine .inr (.inr ⟨rank, rfl, ?_⟩)
      rw [step, htask]
      rfl
  | kept rank => exact .inl (hidle htask)

theorem stage_step (h : ∀ i, Stage (calls i) (r.tasks i)) (i j : ι) :
    Stage (calls j) ((r.step i).tasks j) := by
  by_cases hji : j = i
  · subst hji
    rcases step_cases (h j) with heq | ⟨-, heq⟩ | ⟨rank, -, heq⟩
    · rw [heq]
      exact h j
    · rw [heq, tasks_put_self]
      exact .keeping _
    · rw [heq, tasks_put_self]
      exact .kept rank
  · rw [step, tasks_put_of_ne hji]
    exact h j

/-- A record that has been made stays as it is. -/
theorem made?_step (h : Stage (calls j) (r.tasks j)) (i : ι)
    (hmade : made? (r.tasks j) = some e) : made? ((r.step i).tasks j) = some e := by
  by_cases hji : j = i
  · subst hji
    rcases step_cases h with heq | ⟨hnone, -⟩ | ⟨rank, htask, heq⟩
    · rwa [heq]
    · rw [hnone] at hmade
      cases hmade
    · rw [htask] at hmade
      rw [heq, tasks_put_self]
      exact hmade
  · rwa [step, tasks_put_of_ne hji]

theorem Tied.step (hstage : ∀ i, Stage (calls i) (r.tasks i)) (h : r.Tied) (i : ι) :
    (r.step i).Tied := by
  obtain ⟨j, k, e, e', hne, he, he', hrank⟩ := h
  exact ⟨j, k, e, e', hne, made?_step (hstage j) i he, made?_step (hstage k) i he', hrank⟩

/-! ### What an access preserves -/

variable {c : Start}

/-- A start that looks for its rank changes nothing that others see, and finds the next one. -/
theorem Orderly.look (h : r.Orderly c.mission.id) (halone : ¬ (r.put i (r.looked c)).Crowded) :
    (r.put i (r.looked c)).Orderly c.mission.id := by
  have hreturns {j : ι} {e : Execution} (hj : (r.put i (r.looked c)).Returns j e) :
      r.Returns j e := by
    by_cases hji : j = i
    · rw [hji, Returns, tasks_put_self] at hj
      exact absurd hj c.keeping_ne
    · rwa [Returns, tasks_put_of_ne hji] at hj
  refine ⟨halone, fun j e hj => ?_, fun j e hj => h.below j e (hreturns hj),
    fun j k e e' hne hj hk => h.apart hne (hreturns hj) (hreturns hk)⟩
  by_cases hji : j = i
  · rw [hji, tasks_put_self] at hj
    exact rank_of_keeping hj
  · rw [tasks_put_of_ne hji] at hj
    exact h.next j e hj

/-- The record kept is younger than all before, and no other start is about to keep one. -/
theorem Orderly.keep (h : r.Orderly c.mission.id) (htask : r.tasks i = c.keeping (.ok rank)) :
    (r.put i (r.kept c rank)).Orderly c.mission.id := by
  have hkeeps : keeps? (r.tasks i) = some (c.record rank) := by
    rw [htask]
    rfl
  have hrank : rank = r.top c.mission.id + 1 := h.next i (c.record rank) hkeeps
  have htop : rank ≤ (r.put i (r.kept c rank)).top c.mission.id :=
    rank_le_topRank (mem_executionsOf_saveExecution r.depot.archive (c.record rank))
  have hself {e : Execution} (hi : (r.put i (r.kept c rank)).Returns i e) : e.rank = rank := by
    rw [Returns, tasks_put_self] at hi
    exact (congrArg Execution.rank (Except.ok.inj (Task.done.inj hi))).symm
  have hother {j : ι} {e : Execution} (hji : j ≠ i) (hj : (r.put i (r.kept c rank)).Returns j e) :
      r.Returns j e := by
    rwa [Returns, tasks_put_of_ne hji] at hj
  have hbelow {j : ι} {e : Execution} (hji : j ≠ i) (hj : (r.put i (r.kept c rank)).Returns j e) :
      e.rank < rank := by
    have hle := h.below j e (hother hji hj)
    omega
  have hnone (j : ι) : keeps? ((r.put i (r.kept c rank)).tasks j) = none := by
    by_cases hji : j = i
    · rw [hji, tasks_put_self]
      rfl
    · rw [tasks_put_of_ne hji]
      refine Option.not_isSome_iff_eq_none.mp fun hj => h.alone ⟨j, i, hji, hj, ?_⟩
      rw [hkeeps]
      rfl
  refine ⟨?_, fun j e hj => ?_, fun j e hj => ?_, fun j k e e' hne hj hk => ?_⟩
  · rintro ⟨j, k, -, hj, -⟩
    rw [hnone j] at hj
    cases hj
  · rw [hnone j] at hj
    cases hj
  · by_cases hji : j = i
    · subst hji
      rwa [hself hj]
    · exact Nat.le_trans (Nat.le_of_lt (hbelow hji hj)) htop
  · by_cases hji : j = i
    · subst hji
      rw [hself hj]
      exact (Nat.ne_of_lt (hbelow hne.symm hk)).symm
    · by_cases hki : k = i
      · subst hki
        rw [hself hk]
        exact Nat.ne_of_lt (hbelow hji hj)
      · exact h.apart hne (hother hji hj) (hother hki hk)

theorem Orderly.step (h : r.Orderly id) (hid : ∀ i, (calls i).mission.id = id)
    (hstage : ∀ i, Stage (calls i) (r.tasks i)) (halone : ¬ (r.step i).Crowded) :
    (r.step i).Orderly id := by
  have hi := hid i
  subst hi
  rcases step_cases (hstage i) with heq | ⟨-, heq⟩ | ⟨rank, htask, heq⟩
  · rwa [heq]
  · rw [heq] at halone ⊢
    exact h.look halone
  · rw [heq]
    exact h.keep htask

/-- The second start that comes between its accesses finds the rank that the first one has found. -/
theorem Orderly.tied (h : r.Orderly id) (hid : ∀ i, (calls i).mission.id = id)
    (hstage : ∀ i, Stage (calls i) (r.tasks i)) (hcrowded : (r.step i).Crowded) :
    (r.step i).Tied := by
  have hnext {j : ι} {e : Execution} (hj : keeps? ((r.step i).tasks j) = some e) :
      e.rank = r.top id + 1 := by
    by_cases hji : j = i
    · subst hji
      rcases step_cases (hstage j) with heq | ⟨-, heq⟩ | ⟨rank, -, heq⟩
      · rw [heq] at hj
        exact h.next j e hj
      · rw [heq, tasks_put_self] at hj
        rw [rank_of_keeping hj, hid]
        rfl
      · rw [heq, tasks_put_self] at hj
        cases hj
    · rw [Rush.step, tasks_put_of_ne hji] at hj
      exact h.next j e hj
  obtain ⟨j, k, hne, hj, hk⟩ := hcrowded
  obtain ⟨e, hj⟩ := Option.isSome_iff_exists.mp hj
  obtain ⟨e', hk⟩ := Option.isSome_iff_exists.mp hk
  exact ⟨j, k, e, e', hne, made?_of_keeps? hj, made?_of_keeps? hk,
    (hnext hj).trans (hnext hk).symm⟩

/-! ### What a whole run preserves -/

theorem run_concat (r : Rush ι) (turns : List ι) (i : ι) :
    r.run (turns ++ [i]) = (r.run turns).step i :=
  List.foldl_append

theorem stage_run (calls : ι → Start) (d : Depot) (turns : List ι) (i : ι) :
    Stage (calls i) (((start calls d).run turns).tasks i) := by
  induction turns using List.reverseRecOn generalizing i with
  | nil => exact .outset
  | append_singleton turns j ih =>
    rw [run_concat]
    exact stage_step ih j i

omit [DecidableEq ι] in
theorem orderly_start (calls : ι → Start) (d : Depot) (id : String) :
    (start calls d).Orderly id where
  alone := by
    rintro ⟨i, j, -, hi, -⟩
    cases hi
  next i e hi := by cases hi
  below i e hi := by cases hi
  apart i j e e' _ hi := by cases hi

variable {d : Depot}

theorem orderly_or_tied (hid : ∀ i, (calls i).mission.id = id) (turns : List ι) :
    (((start calls d).run turns).Orderly id ∧
      ∀ past, past <+: turns → ¬ ((start calls d).run past).Crowded) ∨
    (((start calls d).run turns).Tied ∧
      ∃ past, past <+: turns ∧ ((start calls d).run past).Crowded) := by
  induction turns using List.reverseRecOn with
  | nil =>
    have h := orderly_start calls d id
    refine .inl ⟨h, fun past hpast => ?_⟩
    rw [List.prefix_nil.mp hpast]
    exact h.alone
  | append_singleton turns i ih =>
    have hstage := stage_run calls d turns
    rcases ih with ⟨h, halone⟩ | ⟨h, past, hpast, hcrowded⟩
    · -- Either this access makes the first crowd, or the starts stay in order.
      by_cases hcrowded : ((start calls d).run (turns ++ [i])).Crowded
      · refine .inr ⟨?_, _, List.prefix_rfl, hcrowded⟩
        rw [run_concat] at hcrowded ⊢
        exact h.tied hid hstage hcrowded
      · refine .inl ⟨?_, fun past hpast => ?_⟩
        · rw [run_concat] at hcrowded ⊢
          exact h.step hid hstage hcrowded
        · rcases List.prefix_concat_iff.mp hpast with rfl | hpast
          · exact hcrowded
          · exact halone past hpast
    · refine .inr ⟨?_, past, hpast.trans (List.prefix_append turns [i]), hcrowded⟩
      rw [run_concat]
      exact h.step hstage i

omit [DecidableEq ι] in
theorem returns_of_made? (hdone : keeps? (r.tasks i) = none) (h : made? (r.tasks i) = some e) :
    r.Returns i e := by
  rw [Returns]
  cases htask : r.tasks i with
  | done result =>
    rw [htask] at h
    cases result with
    | error fault => cases h
    | ok x => rw [Option.some.inj h]
  | saveExecution x next =>
    rw [htask] at hdone
    cases hdone
  | _ =>
    rw [htask] at h
    cases h

/-- **When starts give back different ranks.** -/
theorem apart_iff (hid : ∀ i, (calls i).mission.id = id)
    (hdone : ∀ i, keeps? (((start calls d).run turns).tasks i) = none) :
    ((start calls d).run turns).Apart ↔
      ∀ past, past <+: turns → ¬ ((start calls d).run past).Crowded := by
  rcases orderly_or_tied hid turns with ⟨h, halone⟩ | ⟨h, past, hpast, hcrowded⟩
  · exact ⟨fun _ => halone, fun _ => h.apart⟩
  · -- The two records of one rank have been given back.
    obtain ⟨i, j, e, e', hne, hi, hj, hrank⟩ := h
    have hi := returns_of_made? (hdone i) hi
    have hj := returns_of_made? (hdone j) hj
    exact ⟨fun hapart => absurd hrank (hapart hne hi hj),
      fun halone => absurd hcrowded (halone past hpast)⟩

end Rush

/-! ### Two starts at once -/

/-- Two starts of a mission that has not been flown. -/
def twoStarts (i : Bool) : Start where
  mission := { id := "field", name := "field", kind := .standard }
  id := if i then "first" else "second"
  now := ⟨0, 0⟩

/-- Both look for their rank before one of them keeps its record. -/
def crossedTurns : List Bool :=
  [true, false, true, false]

theorem Rush.apart_crossedTurns :
    ∃ past, past <+: crossedTurns ∧ ((Rush.start twoStarts ⟨.memory {}, {}⟩).run past).Crowded ∧
      ¬ ((Rush.start twoStarts ⟨.memory {}, {}⟩).run crossedTurns).Apart := by
  have hid (i : Bool) : (twoStarts i).mission.id = "field" := rfl
  have hdone (i : Bool) :
      keeps? (((Rush.start twoStarts ⟨.memory {}, {}⟩).run crossedTurns).tasks i) = none := by
    cases i <;> rfl
  have hpast : [true, false] <+: crossedTurns := ⟨[true, false], rfl⟩
  have hcrowded : ((Rush.start twoStarts ⟨.memory {}, {}⟩).run [true, false]).Crowded :=
    ⟨true, false, by decide, rfl, rfl⟩
  exact ⟨_, hpast, hcrowded, fun hapart =>
    (Rush.apart_iff hid hdone).mp hapart _ hpast hcrowded⟩

/-- The ranks that starts give back are not always different. -/
theorem not_forall_apart :
    ¬ ∀ (calls : Bool → Start) (d : Depot) (id : String) (turns : List Bool),
      (∀ i, (calls i).mission.id = id) → ((Rush.start calls d).run turns).Apart := by
  intro hall
  have hid (i : Bool) : (twoStarts i).mission.id = "field" := rfl
  have hapart := hall twoStarts ⟨.memory {}, {}⟩ "field" crossedTurns hid
  have hfirst : ((Rush.start twoStarts ⟨.memory {}, {}⟩).run crossedTurns).Returns true
      ((twoStarts true).record 1) := rfl
  have hsecond : ((Rush.start twoStarts ⟨.memory {}, {}⟩).run crossedTurns).Returns false
      ((twoStarts false).record 1) := rfl
  exact hapart (by decide) hfirst hsecond rfl

end Sortie.Archive
