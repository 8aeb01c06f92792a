import Sortie.Proofs.Command.Completion
import Sortie.Proofs.Decimal.Ordered
import Sortie.Proofs.Run.Agreement
import Sortie.Proofs.Run.Resumptions

/-!
# Other versions of the record

Another version of the loaded record takes its place as it is, in every state of the run.  So what
has been reached is kept exactly if that version keeps it (`Cursor.KeptBy`), and a version from
before the latest reports sets the record back, the one shown and the next resumption with it.

The items accepted are not forgotten, though.  From the version on, each write marks the last item
accepted in the record (`Sequel.stands`), so with the next commit the record has caught up with it,
whether the item came before the version or after (`Cursor.CaughtUp`).
-/

namespace Sortie

open Decimal (Keeps)

namespace Cursor

/-- What `c` has reached `d` has reached as well. -/
structure KeptBy (c d : Cursor) : Prop where
  lastItem : c.lastItem ≤ d.lastItem
  reachedFirst : c.reachedFirst = true → d.reachedFirst = true
  reachedLast : c.reachedLast = true → d.reachedLast = true
  percent : Keeps c.percent d.percent

/-- `d` has what `c` has reached, with the last item and what it reaches. -/
structure CaughtUp (c : Cursor) (s : Sequence) (last : Option Nat) (d : Cursor) : Prop where
  lastItem : d.lastItem = last.getD c.lastItem
  reachedFirst : d.reachedFirst = (c.reachedFirst || last.any s.reachedFirst)
  reachedLast : d.reachedLast = (c.reachedLast || last.any s.reachedLast)
  percent : Keeps c.percent d.percent ∧ ∀ item ∈ last, Keeps (s.percent item) d.percent

/-- The cursor with items marked in it, one after another. -/
def marks (c : Cursor) (s : Sequence) (items : List Nat) : Cursor :=
  items.foldl (·.mark s ·) c

variable {c d e : Cursor} {s : Sequence} {items : List Nat}

theorem KeptBy.trans (h : c.KeptBy d) (h' : d.KeptBy e) : c.KeptBy e :=
  ⟨h.lastItem.trans h'.lastItem, h'.reachedFirst ∘ h.reachedFirst, h'.reachedLast ∘ h.reachedLast,
    h.percent.trans h'.percent⟩

theorem KeptBy.of_same (h : Same c d) : c.KeptBy d := by
  rcases h with rfl | h
  · exact ⟨le_rfl, id, id, .refl _⟩
  · obtain ⟨hlast, hfirst, hend⟩ := eq_of_beq h
    simp only [BEq.beq, instBEqCursor.beq, Bool.and_eq_true] at h
    exact ⟨hlast.le, (hfirst ▸ ·), (hend ▸ ·), .of_same (.inr h.2.2.2.2)⟩

theorem marks_concat (c : Cursor) (s : Sequence) (items : List Nat) (item : Nat) :
    c.marks s (items ++ [item]) = (c.marks s items).mark s item := by
  simp [marks]

theorem keeps_greater_left (p q : Float) : Keeps p (greater p q) := by
  unfold greater
  split
  · next h =>
    rcases h with h | h
    · exact .inr (Decimal.le_of_lt h)
    · exact .inl h
  · exact .refl p

theorem keeps_greater_right (p q : Float) : Keeps q (greater p q) := by
  unfold greater
  split
  · exact .refl q
  · next h =>
    obtain ⟨hlt, hp⟩ := not_or.mp h
    cases hq : q.isNaN with
    | true => exact .inl hq
    | false => exact .inr (Decimal.le_of_not_lt (Bool.not_eq_true _ ▸ hp) hq hlt)

theorem keeps_marks (c : Cursor) (s : Sequence) (items : List Nat) :
    Keeps c.percent (c.marks s items).percent := by
  induction items generalizing c with
  | nil => exact .refl _
  | cons item items ih => exact (keeps_greater_left _ _).trans (ih (c.mark s item))

/-- What is reached is reached by one of the items. -/
theorem flag_marks (flag : Cursor → Bool) (reaches : Nat → Bool)
    (hmark : ∀ c item, flag (mark c s item) = (flag c || reaches item)) (c : Cursor)
    (items : List Nat) : flag (c.marks s items) = (flag c || items.any reaches) := by
  induction items generalizing c with
  | nil => exact (Bool.or_false _).symm
  | cons item items ih =>
    show flag ((c.mark s item).marks s items) = _
    rw [ih, hmark, Bool.or_assoc, List.any_cons]

/-- Items that are not beyond the last one reach nothing that it does not reach. -/
theorem flag_mark_marks (flag : Cursor → Bool) {reaches : Nat → Bool} (hmono : Monotone reaches)
    (hmark : ∀ c item, flag (mark c s item) = (flag c || reaches item)) (c : Cursor) {last : Nat}
    (h : ∀ item ∈ items, item ≤ last) :
    flag ((c.marks s items).mark s last) = (flag c || reaches last) := by
  rw [hmark, flag_marks flag reaches hmark]
  cases hany : items.any reaches with
  | false => rw [Bool.or_false]
  | true =>
    obtain ⟨item, hitem, hreaches⟩ := List.any_eq_true.mp hany
    have hlast : reaches last = true := Bool.eq_true_of_true_le (hreaches ▸ hmono (h item hitem))
    rw [hlast, Bool.or_true, Bool.or_true]

end Cursor

namespace Cursor

/-- `d` is `c` with items marked in it that are not beyond the last one. -/
def Marked (c : Cursor) (s : Sequence) (last : Option Nat) (d : Cursor) : Prop :=
  ∃ items, d = c.marks s items ∧ ∀ item ∈ items, ∃ l ∈ last, item ≤ l

namespace Marked

variable {c d : Cursor} {s : Sequence} {last : Option Nat} {item : Nat}

theorem refl (c : Cursor) (s : Sequence) (last : Option Nat) : c.Marked s last c :=
  ⟨[], rfl, nofun⟩

theorem le_of_mem {items : List Nat} (h : ∀ k ∈ items, ∃ l ∈ last, k ≤ l)
    (hlast : ∀ l ∈ last, l ≤ item) {k : Nat} (hk : k ∈ items) : k ≤ item := by
  obtain ⟨l, hl, hle⟩ := h k hk
  exact hle.trans (hlast l hl)

/-- A later item comes, and it may be marked or not. -/
theorem mono (h : c.Marked s last d) (hlast : ∀ l ∈ last, l ≤ item) : c.Marked s (some item) d := by
  obtain ⟨items, rfl, hitems⟩ := h
  exact ⟨items, rfl, fun k hk => ⟨item, rfl, le_of_mem hitems hlast hk⟩⟩

theorem mark (h : c.Marked s last d) (hlast : ∀ l ∈ last, l ≤ item) :
    c.Marked s (some item) (d.mark s item) := by
  obtain ⟨items, rfl, hitems⟩ := h
  refine ⟨items ++ [item], (c.marks_concat s items item).symm, fun k hk => ⟨item, rfl, ?_⟩⟩
  rcases List.mem_append.mp hk with hk | hk
  · exact le_of_mem hitems hlast hk
  · exact (List.mem_singleton.mp hk).le

theorem eq_of_none (h : c.Marked s none d) : d = c := by
  obtain ⟨items, rfl, hitems⟩ := h
  have hnil : items = [] := by
    rw [List.eq_nil_iff_forall_not_mem]
    intro k hk
    obtain ⟨l, hl, -⟩ := hitems k hk
    cases hl
  rw [hnil]
  rfl

/-- Once the last item is marked, the cursor has caught up with it. -/
theorem caughtUp_mark (h : c.Marked s (some item) d) : c.CaughtUp s (some item) (d.mark s item) := by
  obtain ⟨items, rfl, hitems⟩ := h
  have hle : ∀ k ∈ items, k ≤ item := fun k hk =>
    le_of_mem hitems (fun l hl => (Option.some.inj hl).ge) hk
  constructor
  case lastItem => rfl
  case reachedFirst =>
    exact flag_mark_marks Cursor.reachedFirst (monotone_any_le _) (fun _ _ => rfl) c hle
  case reachedLast =>
    exact flag_mark_marks Cursor.reachedLast (monotone_any_le _) (fun _ _ => rfl) c hle
  case percent =>
    refine ⟨(keeps_marks c s items).trans (keeps_greater_left _ _), fun k hk => ?_⟩
    obtain rfl := Option.some.inj hk
    exact keeps_greater_right _ _

end Marked

theorem caughtUp_none (c : Cursor) (s : Sequence) : c.CaughtUp s none c where
  lastItem := rfl
  reachedFirst := (Bool.or_false _).symm
  reachedLast := (Bool.or_false _).symm
  percent := ⟨.refl _, nofun⟩

end Cursor

namespace Run

/-! ### What is written into a record -/

namespace Flight

/-- Since the cursor was `c`, only items have been marked in the record. -/
structure Marks (c : Cursor) (s : Sequence) (f : Flight) : Prop where
  commands : f.commands = s
  marked : c.Marked s f.latest f.record.cursor

namespace Marks

variable {c : Cursor} {s : Sequence} {f : Flight} {i : Input}

theorem refl (f : Flight) : f.Marks f.record.cursor f.commands :=
  ⟨rfl, .refl _ _ _⟩

theorem of_core (h : f.core.Marks c s) : f.Marks c s :=
  ⟨h.commands, h.marked⟩

theorem core (h : f.Marks c s) : f.core.Marks c s :=
  ⟨h.commands, h.marked⟩

theorem bring (h : f.Marks c s) (playing : Bool) (hu : i.update? = none) :
    (f.bring playing i).Marks c s where
  commands := (f.commands_bring playing i).trans h.commands
  marked := by
    rw [f.record_bring playing hu, latest_bring]
    cases haccepted : f.accepted? i with
    | none => exact h.marked
    | some item =>
      have haccepts : f.accepts item = true := (Option.filter_eq_some_iff.mp haccepted).2
      have hlast : ∀ l ∈ f.latest, l ≤ item := by
        intro l hl
        rw [accepts, Option.mem_def.mp hl, Option.all_some, Bool.and_eq_true,
          decide_eq_true_eq] at haccepts
        exact haccepts.1.le
      cases playing with
      | false => exact h.marked.mono hlast
      | true => exact h.commands ▸ h.marked.mark hlast

/-- What is committed has caught up with the last item accepted. -/
theorem caughtUp (h : f.Marks c s) : c.CaughtUp s f.latest f.committed.cursor := by
  have hmarked := h.marked
  rw [cursor_committed]
  cases hlast : f.latest with
  | none =>
    rw [hlast] at hmarked
    show c.CaughtUp s none f.record.cursor
    rw [hmarked.eq_of_none]
    exact c.caughtUp_none s
  | some last =>
    rw [hlast] at hmarked
    exact h.commands ▸ hmarked.caughtUp_mark

theorem commit (h : f.Marks c s) : f.commit.Marks c s where
  commands := h.commands
  marked := by
    have hmarked := h.marked
    show c.Marked s f.latest f.committed.cursor
    rw [cursor_committed]
    cases hlast : f.latest with
    | none =>
      rw [hlast] at hmarked
      exact hmarked
    | some last =>
      rw [hlast] at hmarked
      exact h.commands ▸ hmarked.mark fun l hl => (Option.some.inj hl).ge

end Marks

end Flight

/-- The mission stays loaded through a turn, in the same version but for what is marked in it. -/
def Input.leaves (i : Input) : Bool :=
  !i.adopts && i.update?.isNone

theorem Input.leaves_iff {i : Input} : i.leaves = true ↔ i.adopts = false ∧ i.update? = none := by
  simp [leaves]

/-- How a flight stands after turns that leave the version of the record as it is. -/
structure Stands (f : Flight) (ts : List Turn) (resting : Prop) (g : Flight) : Prop where
  marks : g.Marks f.record.cursor f.commands
  latest : g.latest = ((reached ts).getLast? <|> f.latest)
  /-- As long as nothing is committed, a mission that may be resumed has the same record. -/
  resting : (∀ t ∈ ts, t.commits = []) → resting → g.record = f.record

theorem Stands.latest_bring {f g : Flight} {ts : List Turn} {t : Turn} {resting : Prop}
    (h : Stands f ts resting g) (playing : Bool) (ht : t.items = (g.accepted? t.input).toList) :
    (g.core.bring playing t.input).latest = ((reached (t :: ts)).getLast? <|> f.latest) := by
  rw [Flight.latest_bring, reached_cons, ht, List.getLast?_append]
  show (g.accepted? t.input <|> g.latest) = _
  rw [h.latest]
  cases g.accepted? t.input <;> rfl

/-- **From a version of the record on, only items are marked in it.** -/
theorem Sequel.stands {e₀ e : Engine} {f g : Flight} {ts : List Turn} (h : Sequel e₀ ts e)
    (he : e₀.Reachable) (hf : e₀.flight = some f) (hts : ∀ t ∈ ts, t.input.leaves = true)
    (hg : e.flight = some g) : Stands f ts e.registers.Resting g := by
  induction h generalizing g with
  | here =>
    obtain rfl := Option.some.inj (hf.symm.trans hg)
    exact ⟨.refl f, rfl, fun _ _ => rfl⟩
  | @turn ts e₁ e₂ t past now ih =>
    obtain ⟨hi, hu⟩ := Input.leaves_iff.mp (hts t List.mem_cons_self)
    cases hf₁ : e₁.flight with
    | none =>
      rw [Engine.unloaded_step hf₁ hi now] at hg
      cases hg
    | some f₁ =>
      have h₁ : Stands f ts e₁.registers.Resting f₁ :=
        ih (fun u hu => hts u (List.mem_cons_of_mem t hu)) hf₁
      obtain ⟨ht, hmakes⟩ := Engine.makes_step hf₁ hi now
      have hlatest := h₁.latest_bring (e₁.state.phase = .playing) ht
      have hbring := h₁.marks.core.bring (e₁.state.phase = .playing) hu
      cases hmakes with
      | keep hk hc hp =>
        rw [hg] at hk
        have hcore := Option.some.inj hk
        refine ⟨.of_core (hcore ▸ hbring), (congrArg Flight.latest hcore).trans hlatest, ?_⟩
        intro hcommits hresting
        have hr := past.reachable he
        have hrest : e₁.registers.Resting := Engine.resting_of_step hr now hp hresting
        have hplaying : decide (e₁.state.phase = .playing) = false :=
          decide_eq_false (hr.coherent.not_playing_of_resting hrest)
        have hrecord : (f₁.core.bring (e₁.state.phase = .playing) t.input).record = f₁.record := by
          rw [hplaying, f₁.core.record_bring false hu]
          cases f₁.core.accepted? t.input <;> rfl
        refine ((congrArg Flight.record hcore).trans hrecord).trans ?_
        exact h₁.resting (fun u hu => hcommits u (List.mem_cons_of_mem t hu)) hrest
      | halt _ hk hc =>
        rw [hg] at hk
        have hcore := Option.some.inj hk
        refine ⟨.of_core (hcore ▸ hbring.commit), (congrArg Flight.latest hcore).trans hlatest, ?_⟩
        intro hcommits
        have hnone := hcommits t List.mem_cons_self
        rw [hc] at hnone
        cases hnone
      | unload hn =>
        rw [hg] at hn
        cases hn

/-! ### Versions that come in -/

/-- Whether a state carries a record depends on its phase alone. -/
theorem State.execution?_isSome_eq {s t : State} (h : s.phase = t.phase) :
    s.execution?.isSome = t.execution?.isSome := by
  cases s <;> cases t <;> first | rfl | cases h

theorem Execution.cursor_keptBy {x y : Execution} (h : Same x y) : x.cursor.KeptBy y.cursor := by
  rcases h with rfl | h
  · exact .of_same (.refl _)
  · simp only [BEq.beq, instBEqExecution.beq, instBEqMission.beq, Bool.and_eq_true] at h
    exact .of_same (.inr h.1.2.2.2.2.2.2.2.2.2.2.2.2)

namespace Engine

variable {e e' : Engine} {w : Outlook} {x : Execution} {f : Flight} {log : List Effect}

theorem flight_update (hf : e.flight = some f) (hid : f.record.missionId = x.missionId) :
    (e.update x).flight = some (f.withRecord x) := by
  have hflight : ({ e with flight := some (f.withRecord x) } : Engine).refreshWatch.flight
      = some (f.withRecord x) := flight_refreshWatch _
  unfold update
  rw [hf]
  dsimp only
  rw [if_pos hid]
  split
  · unfold setState
    split <;> exact hflight
  · exact hflight

theorem registers_of_update (h : e.Reachable) (hs : e.step w (.wish (.update x)) = .ok (e', log)) :
    e'.registers = e.registers := by
  have hm := move_step h.coherent.backed hs
  generalize e'.registers = r' at hm ⊢
  cases hm with
  | stay => rfl
  | unready ha | attempt ha | defer ha => cases ha
  | settled hi => cases hi

/-- **Another version of the record takes its place, and the items accepted are marked in it from
then on.**  What has been reached is kept, in the record that is loaded and in the one that is
shown, exactly if the version keeps it.  Until the record is committed, and while only items come
in, the mission is resumed where the version says.  With each commit the record has caught up with
the last item accepted, before the version came in or after. -/
theorem Reachable.revised (h : e.Reachable) (hf : e.flight = some f)
    (hid : f.record.missionId = x.missionId) (w : Outlook) :
    ∃ e' log g, e.step w (.wish (.update x)) = .ok (e', log) ∧ e'.flight = some g ∧
      g.record = x ∧
      (∀ y, e.board.state.execution? = some y → ∃ y', e'.board.state.execution? = some y' ∧
        (y.cursor.KeptBy y'.cursor ↔ f.record.cursor.KeptBy x.cursor)) ∧
      ∀ later t e₁ g₁ e₂, Sequel e' later e₁ → e₁.flight = some g₁ →
        e₁.step t.outlook t.input = .ok (e₂, t.effects) →
        (∀ u ∈ t :: later, u.input.leaves = true) →
        ((∀ u ∈ later, u.commits = []) → ∀ a, .activate a ∈ sent t.effects → a.restart = false →
          a.startItem = x.cursor.lastItem) ∧
        ∀ y ∈ t.commits, x.cursor.CaughtUp f.commands
          ((reached (t :: later)).getLast? <|> f.latest) y.cursor := by
  have hs : e.step w (.wish (.update x)) = _ := step_of_handle rfl
  have hr := h.step hs
  have hg := flight_update (e := { e with log := [] }) hf hid
  refine ⟨_, _, f.withRecord x, hs, hg, rfl, fun y hy => ?_, ?_⟩
  · rw [h.shown_state] at hy
    rw [hr.shown_state]
    obtain ⟨f₀, hf₀, hsame⟩ := h.carried hy
    obtain rfl := Option.some.inj (hf.symm.trans hf₀)
    have hphase := congrArg Registers.phase (registers_of_update h hs)
    obtain ⟨y', hy'⟩ := Option.isSome_iff_exists.mp
      ((State.execution?_isSome_eq hphase).trans (Option.isSome_of_eq_some hy))
    obtain ⟨g₀, hg₀, hsame'⟩ := hr.carried hy'
    obtain rfl := Option.some.inj (hg.symm.trans hg₀)
    refine ⟨y', hy', fun hkept => ?_, fun hkept => ?_⟩
    · exact ((Execution.cursor_keptBy hsame.symm).trans hkept).trans
        (Execution.cursor_keptBy hsame')
    · exact ((Execution.cursor_keptBy hsame).trans hkept).trans
        (Execution.cursor_keptBy hsame'.symm)
  · intro later t e₁ g₁ e₂ hlater hg₁ hstep hleaves
    have hstands := hlater.stands hr hg (fun u hu => hleaves u (List.mem_cons_of_mem t hu)) hg₁
    obtain ⟨hi, hu⟩ := Input.leaves_iff.mp (hleaves t List.mem_cons_self)
    obtain ⟨ht, hmakes⟩ := makes_step hg₁ hi hstep
    refine ⟨fun hcommits a ha hrestart => ?_, fun y hy => ?_⟩
    · obtain ⟨g₂, hg₂, hresting, hitem⟩ := exists_resume hstep ha hrestart
      obtain rfl := Option.some.inj (hg₁.symm.trans hg₂)
      rw [hitem, hstands.resting hcommits hresting]
      rfl
    · cases hmakes with
      | keep _ hc | unload _ hc =>
        rw [hc] at hy
        cases hy
      | halt _ _ hc =>
        rw [hc] at hy
        obtain rfl := List.mem_singleton.mp hy
        have hcaught := (hstands.marks.core.bring (e₁.state.phase = .playing) hu).caughtUp
        rw [hstands.latest_bring _ ht] at hcaught
        exact hcaught

end Engine

/-! ### A version from before the first report -/

/-- The tour has reached its first waypoint. -/
def onTour : List Input :=
  [reportIdle, .notice (.camera .ready), .wish (.setup sample tour), .wish .play, reportActive,
    reportItem 1]

theorem exists_flight_onTour :
    ∃ f, (trial {} (smoothly onTour)).2.flight = some f ∧ f.latest = some 1 ∧
      f.record.cursor.lastItem = 1 ∧ f.record.missionId = sample.missionId := by
  have hflight : (trial {} (smoothly onTour)).2.flight.map
      (fun f => (f.latest, f.record.cursor.lastItem, f.record.missionId))
        = some (some 1, 1, sample.missionId) := by
    decide +kernel
  obtain ⟨f, hf, hread⟩ := Option.map_eq_some_iff.mp hflight
  obtain ⟨hlatest, hitem, hid⟩ := (by simpa using hread :
    f.latest = some 1 ∧ f.record.cursor.lastItem = 1 ∧ f.record.missionId = sample.missionId)
  exact ⟨f, hf, hlatest, hitem, hid⟩

/-- The sample comes in again as it was set up. -/
def setBack : Engine :=
  (trial {} (smoothly (onTour ++ [.wish (.update sample)]))).2

/-- The turns and the engine once the pilot wants a pause. -/
def recalled : List Turn × Engine :=
  (smoothly [.wish .pause]).foldl extend ([], setBack)

/-- The version sets the record back, and the pause brings it up to date. -/
theorem revised_onTour :
    ∃ log g, (trial {} (smoothly onTour)).2.step {} (.wish (.update sample)) = .ok (setBack, log) ∧
      setBack.flight = some g ∧ g.record.cursor.lastItem = 0 ∧
      ∃ e, ∃ t : Turn, recalled.2.step t.outlook t.input = .ok (e, t.effects) ∧
        t.input = reportPaused ∧ ∃ y ∈ t.commits, y.cursor.lastItem = 1 := by
  obtain ⟨f, hf, hlatest, -, hid⟩ := exists_flight_onTour
  obtain ⟨e', log, g, hs, hg, hrecord, -, hafter⟩ :=
    (reachable_trial {} (smoothly onTour)).revised hf hid {}
  have hs' : (trial {} (smoothly onTour)).2.step {} (.wish (.update sample)) = .ok (setBack, _) :=
    Engine.step_of_handle rfl
  obtain ⟨rfl, rfl⟩ := Prod.mk.inj (Except.ok.inj (hs'.symm.trans hs))
  have hlater : Sequel setBack recalled.1 recalled.2 :=
    sequel_foldl_extend (smoothly [.wish .pause]) .here
  have hloaded : recalled.2.flight.isSome = true := by decide +kernel
  obtain ⟨g₁, hg₁⟩ := Option.isSome_iff_exists.mp hloaded
  obtain ⟨t, ⟨e, hstep⟩, ht, hone, hitems⟩ : ∃ t : Turn,
      (∃ e, recalled.2.step t.outlook t.input = .ok (e, t.effects)) ∧ t.input = reportPaused ∧
        t.commits.length = 1 ∧ t.items = [] :=
    ⟨⟨{}, reportPaused, _⟩, ⟨_, Engine.step_of_handle rfl⟩, rfl, by decide +kernel,
      by decide +kernel⟩
  obtain ⟨y, hy⟩ := List.length_eq_one_iff.mp hone
  have hmem : y ∈ t.commits := hy ▸ List.mem_singleton_self y
  have hleaves : ∀ u ∈ t :: recalled.1, u.input.leaves = true :=
    List.forall_mem_cons.mpr ⟨by rw [ht]; rfl, by decide⟩
  have hcaught := (hafter recalled.1 t _ g₁ _ hlater hg₁ hstep hleaves).2 y hmem
  have hreached : reached (t :: recalled.1) = [] := by
    rw [reached_cons, hitems]
    decide +kernel
  refine ⟨_, g, hs, hg, hrecord ▸ rfl, e, t, hstep, ht, y, hmem, ?_⟩
  rw [hcaught.lastItem, hreached, hlatest]
  rfl

/-- A version that the pilot has had since before the latest reports takes back what they tell. -/
theorem not_forall_keptBy :
    ¬ ∀ (e : Engine) (f : Flight) (x : Execution) (w : Outlook) (e' : Engine) (log : List Effect),
      e.Reachable → e.flight = some f → f.record.missionId = x.missionId →
      e.step w (.wish (.update x)) = .ok (e', log) →
      ∃ g, e'.flight = some g ∧ f.record.cursor.KeptBy g.record.cursor := by
  intro hall
  obtain ⟨f, hf, -, hitem, hid⟩ := exists_flight_onTour
  have hs : (trial {} (smoothly onTour)).2.step {} (.wish (.update sample)) = _ :=
    Engine.step_of_handle rfl
  obtain ⟨g, hg, hkept⟩ := hall _ f sample {} _ _ (reachable_trial {} (smoothly onTour)) hf hid hs
  have hback := Engine.flight_update (e := { (trial {} (smoothly onTour)).2 with log := [] }) hf hid
  obtain rfl := Option.some.inj (hback.symm.trans hg)
  have hle : 1 ≤ sample.cursor.lastItem := hitem ▸ hkept.lastItem
  exact absurd hle (by decide)

end Run

end Sortie
