import Sortie.Proofs.Archive.Listings
import Sortie.Proofs.Run.Ledger
import Sortie.Run.Service

/-!
# Records kept by the service

After each input the service hands over the record that the engine has put down, and what is handed
over is kept one record after the other, whenever there is time for it.  `Course` leaves open when
that is, which inputs come, and what happens to the rest of the service in between.  Along any
course, what has been taken up to be kept and what still waits are together the records committed,
in their order.  So once nothing waits, the archive has the record of each execution that was
committed last (`Service.records_kept`).

The operations of the service are courses (`runs_give`, `runs_stir`, …).
-/

namespace Sortie

namespace Run

namespace Service

variable {s s' s₀ s₁ s₂ : Service} {i : Input} {taken more : List (Execution × Bool)}

/-! ### Courses -/

/-- The same as far as records matter. -/
structure Beside (s s' : Service) : Prop where
  engine : s'.engine = s.engine
  archive : s'.archive = s.archive
  outbox : s'.outbox = s.outbox
  log : s'.log = s.log

theorem beside_refl (s : Service) : s.Beside s := ⟨rfl, rfl, rfl, rfl⟩

/-- What can happen to a service, with the records taken up to be kept and whether each was
saved. -/
inductive Course (s₀ : Service) : List (Execution × Bool) → Service → Prop
  | here : Course s₀ [] s₀
  | handle {taken : List (Execution × Bool)} {s : Service} (past : Course s₀ taken s) (i : Input) :
      Course s₀ taken (s.handle i)
  | keep {taken : List (Execution × Bool)} {s : Service} {x : Execution} {rest : List Execution}
      (past : Course s₀ taken s) (h : s.outbox = x :: rest) (isSaved : Bool) :
      Course s₀ (taken ++ [(x, isSaved)]) (s.keep isSaved)
  | drift {taken : List (Execution × Bool)} {s s' : Service} (past : Course s₀ taken s)
      (h : s.Beside s') : Course s₀ taken s'

/-! ### What the service hands over -/

theorem engine_of_give {r r' : Rig} {log : List Effect} (h : r.give i = .ok (r', log)) :
    r.engine.step r.outlook i = .ok (r'.engine, log) := by
  unfold Rig.give at h
  cases hs : r.engine.step r.outlook i with
  | error fault =>
    rw [hs] at h
    cases h
  | ok next =>
    rw [hs] at h
    cases h
    rfl

theorem beside_armTimers (s : Service) : s.Beside s.armTimers := ⟨rfl, rfl, rfl, rfl⟩

/-- The record put down is handed over, and the engine has room for the next. -/
theorem handOver_spec (s : Service) (ha : s.archive.isSome = true) :
    s.handOver.engine.unsaved = none ∧ s.handOver.archive = s.archive ∧
      s.handOver.outbox = s.outbox ++ s.engine.unsaved.toList ∧ s.handOver.log = s.log := by
  unfold handOver
  cases hu : s.engine.unsaved with
  | none => exact ⟨hu, rfl, (List.append_nil _).symm, rfl⟩
  | some x => exact ⟨rfl, rfl, if_pos ha, rfl⟩

/-- **What an input has committed is handed over**, behind what was handed over before. -/
theorem handle_spec (hu : s.engine.unsaved = none) (ha : s.archive.isSome = true) (i : Input) :
    (s.handle i).engine.unsaved = none ∧ (s.handle i).archive = s.archive ∧
      ∃ xs, (s.handle i).outbox = s.outbox ++ xs ∧
        committed (s.handle i).log.reverse = committed s.log.reverse ++ xs := by
  unfold handle
  split
  · cases hg : s.rig.give i with
    | error fault => exact ⟨hu, rfl, [], (List.append_nil _).symm, (List.append_nil _).symm⟩
    | ok next =>
      obtain ⟨rig, log⟩ := next
      let d : Service := { s with rig, log := log.reverseAux s.log }
      obtain ⟨hroom, harchive, houtbox, hlog⟩ := d.handOver_spec ha
      obtain ⟨hengine', harchive', houtbox', hlog'⟩ := beside_armTimers d.handOver
      refine ⟨hengine' ▸ hroom, harchive'.trans harchive, d.engine.unsaved.toList,
        houtbox'.trans houtbox, ?_⟩
      -- The engine had nothing put down, so it holds just what this step has committed.
      have hcommitted : committed log = d.engine.unsaved.toList := by
        have hput : d.engine = rig.engine := rfl
        rcases Engine.booked_step (engine_of_give hg) with ⟨hnone, hkept⟩ | ⟨x, hone, hput'⟩
        · rw [hnone, hput, hkept, show s.rig.engine.unsaved = none from hu]
          rfl
        · rw [hone, hput, hput']
          rfl
      show committed (d.handOver.armTimers).log.reverse = _
      rw [hlog', hlog, ← hcommitted, ← committed_append]
      show committed (log.reverseAux s.log).reverse = _
      rw [List.reverseAux_eq, List.reverse_append, List.reverse_reverse]
  · exact ⟨hu, rfl, [], (List.append_nil _).symm, (List.append_nil _).symm⟩

theorem keep_of_cons {x : Execution} {rest : List Execution} (h : s.outbox = x :: rest)
    (isSaved : Bool) :
    s.keep isSaved = { s with
      outbox := rest
      archive := if isSaved then s.archive.map (·.saveExecution x) else s.archive } := by
  unfold keep
  rw [h]

/-- The records that were taken up and saved. -/
def savedOf (taken : List (Execution × Bool)) : List Execution :=
  (taken.filter Prod.snd).map Prod.fst

/-- **Records are kept in the order in which they are committed**, none of them twice and none of
them left out. -/
theorem Course.in_order {rig : Rig} {a : Archive} (h : Course (start rig (some a)) taken s)
    (hu : rig.engine.unsaved = none) :
    s.engine.unsaved = none ∧ s.archive = some (a.saveAll (savedOf taken)) ∧
      taken.map Prod.fst ++ s.outbox = committed s.log.reverse := by
  induction h with
  | here => exact ⟨hu, rfl, rfl⟩
  | @handle taken s past i ih =>
    obtain ⟨hroom, harchive, horder⟩ := ih
    obtain ⟨hroom', harchive', xs, houtbox, hlog⟩ := handle_spec hroom (by rw [harchive]; rfl) i
    refine ⟨hroom', harchive'.trans harchive, ?_⟩
    rw [houtbox, hlog, ← List.append_assoc, horder]
  | @keep taken s x rest past hx isSaved ih =>
    obtain ⟨hroom, harchive, horder⟩ := ih
    rw [hx] at horder
    rw [keep_of_cons hx]
    refine ⟨hroom, ?_, by simpa using horder⟩
    cases isSaved with
    | true =>
      have hsaved : savedOf (taken ++ [(x, true)]) = savedOf taken ++ [x] := by simp [savedOf]
      rw [hsaved, Archive.saveAll_concat, harchive]
      rfl
    | false =>
      have hsaved : savedOf (taken ++ [(x, false)]) = savedOf taken := by simp [savedOf]
      rw [hsaved]
      exact harchive
  | drift past hb ih =>
    obtain ⟨hroom, harchive, horder⟩ := ih
    exact ⟨hb.engine ▸ hroom, hb.archive ▸ harchive, by rw [hb.outbox, hb.log]; exact horder⟩

/-! ### The operations of the service -/

theorem Course.trans (h : Course s₀ taken s₁) (h' : Course s₁ more s₂) :
    Course s₀ (taken ++ more) s₂ := by
  induction h' with
  | here => exact (List.append_nil taken).symm ▸ h
  | handle _ i ih => exact ih.handle i
  | keep _ hx isSaved ih => exact List.append_assoc .. ▸ ih.keep hx isSaved
  | drift _ hb ih => exact ih.drift hb

/-- One service comes of another, and whatever is taken up on the way is saved. -/
def Runs (s s' : Service) : Prop :=
  ∃ taken, Course s taken s' ∧ ∀ x ∈ taken, x.2 = true

theorem Runs.trans (h : s₀.Runs s₁) (h' : s₁.Runs s₂) : s₀.Runs s₂ := by
  obtain ⟨taken, hcourse, hsaved⟩ := h
  obtain ⟨more, hcourse', hsaved'⟩ := h'
  refine ⟨taken ++ more, hcourse.trans hcourse', fun x hx => ?_⟩
  rcases List.mem_append.mp hx with hx | hx
  · exact hsaved x hx
  · exact hsaved' x hx

theorem runs_of_beside (h : s.Beside s') : s.Runs s' :=
  ⟨[], .drift .here h, fun _ hx => absurd hx List.not_mem_nil⟩

theorem runs_refl (s : Service) : s.Runs s :=
  runs_of_beside s.beside_refl

theorem runs_handle (s : Service) (i : Input) : s.Runs (s.handle i) :=
  ⟨[], .handle .here i, fun _ hx => absurd hx List.not_mem_nil⟩

theorem runs_handle_of_beside (h : s.Beside s') (i : Input) : s.Runs (s'.handle i) :=
  (runs_of_beside h).trans (s'.runs_handle i)

theorem runs_keep (s : Service) : s.Runs (s.keep true) := by
  cases hx : s.outbox with
  | nil =>
    have hkeep : s.keep true = s := by
      unfold keep
      rw [hx]
    rw [hkeep]
    exact s.runs_refl
  | cons x rest => exact ⟨[(x, true)], .keep .here hx true, by simp⟩

theorem runs_keepAll (s : Service) : s.Runs s.keepAll := by
  unfold keepAll
  generalize s.outbox = xs
  induction xs generalizing s with
  | nil => exact s.runs_refl
  | cons x xs ih => exact s.runs_keep.trans (ih _)

theorem outbox_keep (s : Service) (isSaved : Bool) : (s.keep isSaved).outbox = s.outbox.tail := by
  cases hx : s.outbox with
  | nil =>
    unfold keep
    rw [hx]
    exact hx
  | cons x rest => rw [keep_of_cons hx, List.tail_cons]

theorem outbox_keepAll (s : Service) : s.keepAll.outbox = [] := by
  have hdrop (xs : List Execution) (s : Service) :
      (xs.foldl (fun s _ => s.keep true) s).outbox = s.outbox.drop xs.length := by
    induction xs generalizing s with
    | nil => rfl
    | cons x xs ih =>
      refine (ih (s.keep true)).trans ?_
      rw [outbox_keep, List.drop_tail, List.length_cons]
  exact (hdrop s.outbox s).trans List.drop_length

theorem runs_answer (limit : Nat) : s.Runs (s.answer limit) := by
  induction limit generalizing s with
  | zero => exact s.runs_refl
  | succ limit ih =>
    unfold answer
    split
    · exact s.runs_refl
    · refine (runs_handle_of_beside ?_ _).trans ih
      exact ⟨rfl, rfl, rfl, rfl⟩

theorem runs_fire (s : Service) (a : Alarm) : s.Runs (s.fire a) := by
  unfold fire
  split
  · refine runs_handle_of_beside ?_ _
    exact ⟨rfl, rfl, rfl, rfl⟩
  · refine runs_handle_of_beside ?_ _
    exact ⟨rfl, rfl, rfl, rfl⟩
  · split
    · exact s.runs_refl
    · refine runs_handle_of_beside ?_ _
      exact ⟨rfl, rfl, rfl, rfl⟩

theorem runs_advance (target limit : Nat) : s.Runs (s.advance target limit) := by
  have hpass (s : Service) (now : Nat) : s.Runs { s with now } :=
    runs_of_beside ⟨rfl, rfl, rfl, rfl⟩
  induction limit generalizing s with
  | zero => exact hpass s target
  | succ limit ih =>
    unfold advance
    split
    · exact hpass s target
    · next a due _ =>
      split
      · exact (((hpass s due).trans (runs_fire _ a)).trans (runs_answer _)).trans ih
      · exact hpass s target

theorem runs_wait (s : Service) (millis : Nat) : s.Runs (s.wait millis) :=
  (runs_advance _ _).trans (runs_keepAll _)

theorem runs_give (s : Service) (i : Input) : s.Runs (s.give i) :=
  ((s.runs_handle i).trans (runs_answer _)).trans (runs_wait _ 0)

theorem runs_stir (s : Service) (f : Simulator → Simulator) : s.Runs (s.stir f) := by
  unfold stir
  refine (runs_of_beside ?_).trans ((runs_answer _).trans (runs_wait _ 0))
  exact ⟨rfl, rfl, rfl, rfl⟩

theorem runs_stop (s : Service) : s.Runs s.stop :=
  runs_of_beside ⟨rfl, rfl, rfl, rfl⟩

/-! ### What the archive has -/

theorem savedOf_eq (h : ∀ x ∈ taken, x.2 = true) : savedOf taken = taken.map Prod.fst := by
  rw [savedOf, List.filter_eq_self.mpr h]

/-- Once all that was handed over is saved, the archive is up to date. -/
theorem Course.archive_eq {rig : Rig} {a : Archive} (h : Course (start rig (some a)) taken s)
    (hu : rig.engine.unsaved = none) (ho : s.outbox = []) (hsaved : ∀ x ∈ taken, x.2 = true) :
    s.archive = some (a.saveAll (committed s.log.reverse)) := by
  obtain ⟨-, harchive, horder⟩ := h.in_order hu
  rw [harchive, savedOf_eq hsaved, ← horder, ho, List.append_nil]

/-- The archive is up to date whenever the service has been given time for it. -/
theorem archive_of_giving {rig : Rig} (a : Archive) (hu : rig.engine.unsaved = none)
    (inputs : List Input) :
    (inputs.foldl give (start rig (some a))).archive =
      some (a.saveAll (committed (inputs.foldl give (start rig (some a))).log.reverse)) := by
  have hruns (inputs : List Input) (s : Service) (ho : s.outbox = []) :
      s.Runs (inputs.foldl give s) ∧ (inputs.foldl give s).outbox = [] := by
    induction inputs generalizing s with
    | nil => exact ⟨s.runs_refl, ho⟩
    | cons i inputs ih =>
      obtain ⟨h, hlast⟩ := ih (s.give i) (outbox_keepAll _)
      exact ⟨(s.runs_give i).trans h, hlast⟩
  obtain ⟨⟨taken, hcourse, hsaved⟩, ho⟩ := hruns inputs (start rig (some a)) rfl
  exact hcourse.archive_eq hu ho hsaved

/-- **Every record that is committed is kept, in the order of the commits.**  A step of the engine
commits at most one record and puts down exactly that one.  So along any course of the service, the
records taken up to be kept and those that still wait are the ones committed; and once none waits
and all were saved, the archive has the record of each execution that was committed last. -/
theorem records_kept :
    (∀ (e : Engine) w i e' log, e.step w i = .ok (e', log) →
      (committed log = [] ∧ e'.unsaved = e.unsaved) ∨
        ∃ x, committed log = [x] ∧ e'.unsaved = some x) ∧
    ∀ (rig : Rig) a taken s, rig.engine.unsaved = none → Course (start rig (some a)) taken s →
      s.engine.unsaved = none ∧ taken.map Prod.fst ++ s.outbox = committed s.log.reverse ∧
      (s.outbox = [] → (∀ x ∈ taken, x.2 = true) → ∃ a', s.archive = some a' ∧
        (∀ id, a'.execution? id =
          ((committed s.log.reverse).filter (·.id = id)).getLast?.or (a.execution? id)) ∧
        (a.IsKeyed → a'.IsKeyed)) := by
  refine ⟨fun e w i e' log hs => Engine.booked_step hs, fun rig a taken s hu h => ?_⟩
  obtain ⟨hroom, -, horder⟩ := h.in_order hu
  refine ⟨hroom, horder, fun ho hsaved => ⟨_, h.archive_eq hu ho hsaved, fun id => ?_, fun hk => ?_⟩⟩
  · exact a.execution?_saveAll _ id
  · exact hk.saveAll _

/-- The sample is loaded, and its run is ended. -/
def ending : Service :=
  ((start {} (some {})).handle (.wish (.setup sample []))).handle (.wish (.stop true))

theorem records_kept_ending :
    ∃ a, (ending.keep true).archive = some a ∧ a.execution? "field 1" = some sample ∧ a.IsKeyed := by
  have hoverdue : ending.outbox = [sample] := rfl
  have hcourse : Course (start {} (some {})) [(sample, true)] (ending.keep true) :=
    .keep (.handle (.handle .here _) _) hoverdue true
  obtain ⟨-, -, hkept⟩ := records_kept.2 {} {} _ _ rfl hcourse
  obtain ⟨a, ha, hlast, hkeyed⟩ := hkept rfl (by simp)
  have hcommitted : committed (ending.keep true).log.reverse = [sample] := rfl
  refine ⟨a, ha, ?_, hkeyed List.nodup_nil⟩
  rw [hlast, hcommitted]
  rfl

end Service

end Run

end Sortie
