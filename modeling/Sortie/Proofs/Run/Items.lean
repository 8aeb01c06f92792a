import Sortie.Proofs.Run.Accounts

/-!
# Items reported along a run

Three copies are held of how far a mission has been flown: the last item accepted, the item that
reports are measured by, and the cursor of the record.  Along a run they are what its turns tell
(`Sequel.counted`): the last item reached, the item of the record as it was last set up, updated or
committed, and, whenever the run comes to a halt, the last item reached again.

A version of the record counts only if it is of the loaded mission; one of another mission is
passed over.  `Turn.Accounted` leaves open which versions count, and `not_forall_accounted` is a
run that it would not hold of if all of them did.
-/

namespace Sortie

/-! ### Records that are equal up to the signs of their zeros -/

theorem Cursor.eq_of_beq {a b : Cursor} (h : (a == b) = true) :
    a.lastItem = b.lastItem ∧ a.reachedFirst = b.reachedFirst ∧ a.reachedLast = b.reachedLast := by
  simp [BEq.beq, instBEqCursor.beq] at h
  exact ⟨h.1, h.2.1, h.2.2.1⟩

theorem Execution.cursor_of_same {x y : Execution} (h : x = y ∨ (x == y) = true) :
    x.cursor.lastItem = y.cursor.lastItem ∧ x.cursor.reachedFirst = y.cursor.reachedFirst ∧
      x.cursor.reachedLast = y.cursor.reachedLast := by
  rcases h with rfl | h
  · exact ⟨rfl, rfl, rfl⟩
  · simp only [BEq.beq, instBEqExecution.beq, instBEqMission.beq, Bool.and_eq_true] at h
    exact Cursor.eq_of_beq h.1.2.2.2.2.2.2.2.2.2.2.2.2

namespace Run

/-- The item that an entry tells to be reached. -/
def Entry.item? : Entry → Option Nat
  | reached item => some item
  | recorded _ => none

/-- The record that an entry tells to be changed. -/
def Entry.record? : Entry → Option Execution
  | reached _ => none
  | recorded x => some x

namespace Turn

/-- The items told to be reached. -/
def items (t : Turn) : List Nat :=
  (entries t.effects).filterMap Entry.item?

/-- The records committed. -/
def commits (t : Turn) : List Execution :=
  (entries t.effects).filterMap Entry.record?

end Turn

/-- The items reached in turns, the earliest first. -/
def reached (ts : List Turn) : List Nat :=
  ts.reverse.flatMap Turn.items

/-- The item of the record as it was last set up, updated by a version that counts, or committed. -/
def persisted (counts : Execution → Bool) (x : Execution) : List Turn → Nat
  | [] => x.cursor.lastItem
  | t :: ts =>
    ((t.input.update?.filter counts).toList ++ t.commits).getLast?.elim (persisted counts x ts)
      (·.cursor.lastItem)

/-- What is said of a turn of a run since the setup of `x` and `s`, after the turns `ts`. -/
structure Turn.Accounted (counts : Execution → Bool) (x : Execution) (s : Sequence) (ts : List Turn)
    (e : Engine) (t : Turn) (e' : Engine) : Prop where
  increasing : (reached (t :: ts)).Pairwise (· < ·)
  /-- A report is accepted if it is newer than the last one accepted and not stale. -/
  accepts : ∀ item, t.input.item? = some item →
    (item ∈ t.items ↔
      (∀ last, (reached ts).getLast? = some last → last < item) ∧ persisted counts x ts ≤ item)
  /-- The record that the run comes to a halt with. -/
  carries : e'.state.phase.IsHalted → e'.state.phase ≠ e.state.phase ∨ t.commits ≠ [] →
    ∃ before after, e.execution? = some before ∧ e'.state.execution? = some after ∧
      ∀ last, (reached (t :: ts)).getLast? = some last →
        after.cursor.lastItem = last ∧
        after.cursor.reachedFirst = (before.cursor.reachedFirst || s.reachedFirst last) ∧
        after.cursor.reachedLast = (before.cursor.reachedLast || s.reachedLast last)

theorem reached_cons (t : Turn) (ts : List Turn) : reached (t :: ts) = reached ts ++ t.items := by
  simp [reached]

/-! ### What an input brings to a flight -/

namespace Flight

variable (f : Flight) (playing : Bool) (i : Input)

@[simp] theorem commands_replace (x : Execution) : (f.replace x).commands = f.commands := by
  unfold replace
  split <;> rfl

@[simp] theorem missionId_replace (x : Execution) :
    (f.replace x).record.missionId = f.record.missionId := by
  unfold replace
  split
  · next h => exact h.symm
  · rfl

@[simp] theorem latest_replace (x : Execution) : (f.replace x).latest = f.latest := by
  unfold replace
  split <;> rfl

theorem floor_replace (x : Execution) :
    (f.replace x).floor = if f.record.missionId = x.missionId then x.cursor.lastItem else f.floor := by
  unfold replace
  split <;> rfl

theorem fresh_replace {f : Flight} (h : f.record.cursor.lastItem = f.floor) (x : Execution) :
    (f.replace x).record.cursor.lastItem = (f.replace x).floor := by
  unfold replace
  split
  · rfl
  · exact h

theorem commands_receive : (f.receive playing i).commands = f.commands := by
  unfold receive
  cases f.accepted? i <;> cases i.report? <;> rfl

theorem missionId_receive : (f.receive playing i).record.missionId = f.record.missionId := by
  unfold receive
  cases f.accepted? i <;> cases i.report? <;> cases playing <;> rfl

theorem latest_receive : (f.receive playing i).latest = (f.accepted? i <|> f.latest) := by
  unfold receive
  cases f.accepted? i <;> cases i.report? <;> rfl

theorem floor_receive : (f.receive playing i).floor = f.floor := by
  unfold receive
  cases f.accepted? i <;> cases i.report? <;> rfl

theorem commands_bring : (f.bring playing i).commands = f.commands := by
  unfold bring
  cases i.update? <;> simp [commands_receive]

theorem missionId_bring : (f.bring playing i).record.missionId = f.record.missionId := by
  unfold bring
  cases i.update? <;> simp [missionId_receive]

theorem latest_bring : (f.bring playing i).latest = (f.accepted? i <|> f.latest) := by
  unfold bring
  cases i.update? <;> simp [latest_receive]

theorem floor_bring :
    (f.bring playing i).floor =
      (i.update?.filter (·.missionId = f.record.missionId)).elim f.floor (·.cursor.lastItem) := by
  unfold bring
  cases i.update? with
  | none => exact f.floor_receive playing i
  | some x =>
    simp only [Option.elim_some, floor_replace, missionId_receive, floor_receive, Option.filter_some,
      decide_eq_true_eq, eq_comm (a := x.missionId)]
    split <;> rfl

theorem record_receive :
    (f.receive playing i).record =
      ((f.accepted? i).filter fun _ => playing).elim f.record (f.record.mark f.commands) := by
  unfold receive
  cases f.accepted? i <;> cases i.report? <;> cases playing <;> rfl

theorem record_bring {i : Input} (hu : i.update? = none) :
    (f.bring playing i).record =
      ((f.accepted? i).filter fun _ => playing).elim f.record (f.record.mark f.commands) := by
  rw [← record_receive, bring, hu]
  rfl

/-- Before the first item, the record keeps the item that it was last kept with. -/
theorem fresh_bring (hf : f.latest = none → f.record.cursor.lastItem = f.floor)
    (hg : (f.bring playing i).latest = none) :
    (f.bring playing i).record.cursor.lastItem = (f.bring playing i).floor := by
  rw [latest_bring] at hg
  have haccepted : f.accepted? i = none := by
    cases h : f.accepted? i with
    | none => rfl
    | some item => rw [h] at hg; cases hg
  have hlatest : f.latest = none := by
    rw [haccepted] at hg
    exact hg
  have hreceive : (f.receive playing i).record = f.record := by
    rw [record_receive, haccepted]
    rfl
  have hfresh : (f.receive playing i).record.cursor.lastItem = (f.receive playing i).floor := by
    rw [hreceive, floor_receive]
    exact hf hlatest
  unfold bring
  cases i.update? with
  | none => exact hfresh
  | some x => exact fresh_replace hfresh x

/-- What the cursor is once a flight is committed that a report has come in for. -/
theorem cursor_committed_bring (hu : i.update? = none) {last : Nat}
    (hl : (f.bring playing i).latest = some last) :
    (f.bring playing i).committed.cursor.lastItem = last ∧
      (f.bring playing i).committed.cursor.reachedFirst
        = (f.record.cursor.reachedFirst || f.commands.reachedFirst last) ∧
      (f.bring playing i).committed.cursor.reachedLast
        = (f.record.cursor.reachedLast || f.commands.reachedLast last) := by
  rw [cursor_committed, hl, commands_bring, f.record_bring playing hu]
  rw [latest_bring] at hl
  -- A record that is marked while it is played is marked again when it is committed.
  cases h : f.accepted? i with
  | none => exact ⟨rfl, rfl, rfl⟩
  | some item =>
    obtain rfl : item = last := by
      rw [h] at hl
      exact Option.some.inj hl
    cases playing with
    | false => exact ⟨rfl, rfl, rfl⟩
    | true =>
      have htwice (a b : Bool) : ((a || b) || b) = (a || b) := by simp
      exact ⟨rfl, htwice _ _, htwice _ _⟩

end Flight

/-! ### One turn -/

namespace Turn

variable {t : Turn} {l : List Nat}

/-- Items alone are told. -/
theorem told_of_reached (h : entries t.effects = l.map .reached) : t.items = l ∧ t.commits = [] := by
  unfold items commits
  rw [h]
  constructor <;> simp [List.filterMap_map, Function.comp_def, Entry.item?, Entry.record?]

/-- Items are told, and then one record. -/
theorem told_of_recorded {x : Execution} (h : entries t.effects = l.map .reached ++ [.recorded x]) :
    t.items = l ∧ t.commits = [x] := by
  unfold items commits
  rw [h]
  constructor <;> simp [List.filterMap_map, Function.comp_def, Entry.item?, Entry.record?]

end Turn

theorem Input.eq_of_update? {i : Input} {x : Execution} (h : i.update? = some x) :
    i = .wish (.update x) := by
  unfold Input.update? at h
  split at h
  · rw [Option.some.inj h]
  · cases h

namespace Engine

variable {e e' : Engine} {t : Turn} {f : Flight}

/-- What a turn makes of a flight, given with what the input brings. -/
inductive Makes (e : Engine) (g : Flight) (t : Turn) (e' : Engine) : Prop
  | keep (hf : e'.flight.map Flight.core = some g) (hc : t.commits = [])
      (hp : e'.state.phase.IsHalted → e'.state.phase = e.state.phase)
  | halt (hu : t.input.update? = none) (hf : e'.flight.map Flight.core = some g.commit)
      (hc : t.commits = [g.committed])
      (hs : ∃ x, e'.state.execution? = some x ∧ (x = g.committed ∨ (x == g.committed) = true))
  | unload (hf : e'.flight = none) (hc : t.commits = []) (hp : e'.state.phase = .noMission)

/-- A version of the record brings nothing to a halt. -/
theorem update?_of_halts {i : Input} {w : Outlook} (hd : e.handle w i = .ok e')
    (h : (e.brought i).Halts e') : i.update? = none := by
  cases hu : i.update? with
  | none => rfl
  | some x =>
    have hsame : e.brought i = e' := by
      rw [Input.eq_of_update? hu] at hd ⊢
      exact Except.ok.inj hd
    obtain ⟨f, -, hhalted, -⟩ := h.account
    rw [hsame] at hhalted
    exact absurd (congrArg (·.entries.length) hhalted) (by simp)

/-- **What a turn does to a flight and tells of it.** -/
theorem makes_step (hf : e.flight = some f) (hi : t.input.adopts = false)
    (hs : e.step t.outlook t.input = .ok (e', t.effects)) :
    t.items = (f.accepted? t.input).toList ∧
      e.Makes (f.core.bring (e.state.phase = .playing) t.input) t e' := by
  obtain ⟨d, hd, rfl, hlog⟩ := handle_of_step hs
  let e₁ : Engine := { e with log := [] }
  let g := f.core.bring (e.state.phase = .playing) t.input
  have hbrought : (e₁.brought t.input).account
      = ⟨some g, (f.accepted? t.input).toList.map .reached⟩ := by
    have hloaded : e₁.account = ⟨some f.core, []⟩ := account_of_loaded (e := e₁) hf
    rw [account_brought, hloaded]
    rfl
  have hphase : (e₁.brought t.input).state.phase = e.state.phase := phase_brought e₁ t.input
  have hentries {a : Account} (h : d.account = a) : entries t.effects = a.entries := by
    rw [hlog, ← h]
    rfl
  cases continues_handle hi hd with
  | keep h =>
    have hkept : d.account = ⟨some g, _⟩ := h.account.trans hbrought
    obtain ⟨hitems, hcommits⟩ := Turn.told_of_reached (hentries hkept)
    refine ⟨hitems, .keep (congrArg Account.flight hkept) hcommits fun hp => ?_⟩
    exact (h.phase hp).trans hphase
  | halt h =>
    obtain ⟨g', hg', hhalted, hs⟩ := h.account
    obtain rfl : g = g' := by
      rw [hbrought] at hg'
      exact Option.some.inj hg'
    have hhalted : d.account = ⟨some g.commit, _ ++ [.recorded g.committed]⟩ :=
      hbrought ▸ hhalted
    obtain ⟨hitems, hcommits⟩ := Turn.told_of_recorded (hentries hhalted)
    exact ⟨hitems, .halt (update?_of_halts hd h) (congrArg Account.flight hhalted) hcommits hs⟩
  | unload h hp =>
    have hunloaded : d.account = ⟨none, _⟩ := hbrought ▸ h
    obtain ⟨hitems, hcommits⟩ := Turn.told_of_reached (hentries hunloaded)
    refine ⟨hitems, .unload ?_ hcommits hp⟩
    exact Option.map_eq_none_iff.mp (congrArg Account.flight hunloaded)

/-- Without a mission nothing is told, and none is loaded. -/
theorem unloaded_step (hf : e.flight = none) (hi : t.input.adopts = false)
    (hs : e.step t.outlook t.input = .ok (e', t.effects)) : e'.flight = none := by
  obtain ⟨d, hd, rfl, -⟩ := handle_of_step hs
  let e₁ : Engine := { e with log := [] }
  have hbrought : (e₁.brought t.input).account = ⟨none, []⟩ := by
    have hunloaded : e₁.account = ⟨none, []⟩ := account_of_unloaded (e := e₁) hf
    rw [account_brought, hunloaded]
    rfl
  have hnone {a : Option Flight} (h : a.map Flight.core = none) : a = none :=
    Option.map_eq_none_iff.mp h
  cases continues_handle hi hd with
  | keep h => exact hnone (congrArg Account.flight (h.account.trans hbrought))
  | halt h =>
    obtain ⟨f, hf, -⟩ := h.account
    rw [hbrought] at hf
    cases hf
  | unload h => exact hnone (congrArg Account.flight h)

end Engine

/-! ### Runs -/

/-- A flight stands as the turns since the setup of `x` and `s` tell. -/
structure Counted (x : Execution) (s : Sequence) (ts : List Turn) (f : Flight) : Prop where
  commands : f.commands = s
  missionId : f.record.missionId = x.missionId
  latest : f.latest = (reached ts).getLast?
  floor : f.floor = persisted (·.missionId = x.missionId) x ts
  /-- Before the first item, the record keeps the item that it was last kept with. -/
  fresh : f.latest = none → f.record.cursor.lastItem = f.floor
  increasing : (reached ts).Pairwise (· < ·)

namespace Counted

variable {x : Execution} {s : Sequence} {ts : List Turn} {t : Turn} {f g : Flight}

theorem load (x : Execution) (s : Sequence) : Counted x s [] (.load x s) where
  commands := rfl
  missionId := rfl
  latest := rfl
  floor := rfl
  fresh _ := rfl
  increasing := List.Pairwise.nil

theorem of_core (h : Counted x s ts f.core) : Counted x s ts f :=
  ⟨h.commands, h.missionId, h.latest, h.floor, h.fresh, h.increasing⟩

theorem core (h : Counted x s ts f) : Counted x s ts f.core :=
  ⟨h.commands, h.missionId, h.latest, h.floor, h.fresh, h.increasing⟩

theorem accepts_iff (h : Counted x s ts f) (item : Nat) :
    f.accepts item = true ↔ (∀ last, (reached ts).getLast? = some last → last < item) ∧
      persisted (·.missionId = x.missionId) x ts ≤ item := by
  rw [← h.latest, ← h.floor]
  simp [Flight.accepts, Option.all_eq_true]

theorem lt_of_accepts (h : Counted x s ts f) {item : Nat} (ha : f.accepts item = true) :
    ∀ last ∈ reached ts, last < item := by
  intro a hmem
  cases hlast : (reached ts).getLast? with
  | none =>
    rw [List.getLast?_eq_none_iff.mp hlast] at hmem
    cases hmem
  | some last =>
    have hlt : last < item := ((h.accepts_iff item).mp ha).1 last hlast
    obtain ⟨l, hl⟩ := List.getLast?_eq_some_iff.mp hlast
    have hp := h.increasing
    rw [hl, List.pairwise_append] at hp
    rw [hl, List.mem_append, List.mem_singleton] at hmem
    rcases hmem with hmem | rfl
    · exact Nat.lt_trans (hp.2.2 a hmem last List.mem_cons_self) hlt
    · exact hlt

/-- An item that is accepted is beyond those before. -/
theorem increasing_reached (h : Counted x s ts f)
    (ht : t.items = (f.accepted? t.input).toList) : (reached (t :: ts)).Pairwise (· < ·) := by
  rw [reached_cons, ht, List.pairwise_append]
  refine ⟨h.increasing, ?_, ?_⟩
  · cases f.accepted? t.input <;> simp
  · intro a ha item hitem
    have hitem : f.accepted? t.input = some item := Option.mem_toList.mp hitem
    exact h.lt_of_accepts (Option.filter_eq_some_iff.mp hitem).2 a ha

theorem latest_bring (h : Counted x s ts f) (playing : Bool)
    (ht : t.items = (f.accepted? t.input).toList) :
    (f.bring playing t.input).latest = (reached (t :: ts)).getLast? := by
  rw [Flight.latest_bring, reached_cons, ht, List.getLast?_append, h.latest]
  cases f.accepted? t.input <;> rfl

/-- What an input brings is counted with its turn, as long as nothing is committed. -/
theorem bring (h : Counted x s ts f) (playing : Bool)
    (ht : t.items = (f.accepted? t.input).toList) (hc : t.commits = []) :
    Counted x s (t :: ts) (f.bring playing t.input) where
  commands := (f.commands_bring playing t.input).trans h.commands
  missionId := (f.missionId_bring playing t.input).trans h.missionId
  latest := h.latest_bring playing ht
  floor := by
    rw [Flight.floor_bring, persisted, hc, List.append_nil, h.missionId, h.floor]
    cases t.input.update?.filter (·.missionId = x.missionId) <;> rfl
  fresh := f.fresh_bring playing t.input h.fresh
  increasing := h.increasing_reached ht

/-- What a turn commits is counted with it. -/
theorem commit (h : Counted x s ts f) (playing : Bool)
    (ht : t.items = (f.accepted? t.input).toList) (hu : t.input.update? = none)
    (hc : t.commits = [(f.bring playing t.input).committed]) :
    Counted x s (t :: ts) (f.bring playing t.input).commit where
  commands := (f.commands_bring playing t.input).trans h.commands
  missionId := by
    rw [Flight.missionId_commit, Flight.missionId_bring, h.missionId]
  latest := h.latest_bring playing ht
  floor := by
    rw [persisted, hu, hc]
    show (f.bring playing t.input).latest.getD (f.bring playing t.input).floor
      = (f.bring playing t.input).committed.cursor.lastItem
    rw [Flight.cursor_committed]
    cases hl : (f.bring playing t.input).latest with
    | none => exact (f.fresh_bring playing t.input h.fresh hl).symm
    | some item => rfl
  fresh := by
    intro hl
    have hl : (f.bring playing t.input).latest = none := hl
    show (f.bring playing t.input).committed.cursor.lastItem
      = (f.bring playing t.input).latest.getD (f.bring playing t.input).floor
    rw [Flight.cursor_committed, hl]
    exact f.fresh_bring playing t.input h.fresh hl
  increasing := h.increasing_reached ht

end Counted

namespace Sequel

variable {x : Execution} {s : Sequence} {ts : List Turn} {t : Turn} {f : Flight} {e e' : Engine}

/-- **While a mission stays loaded, its flight stands as the turns tell.** -/
theorem counted (h : Sequel e ts e') (he : e.flight = some (.load x s))
    (hts : ∀ u ∈ ts, u.input.adopts = false) (hf : e'.flight = some f) : Counted x s ts f := by
  induction h generalizing f with
  | here =>
    rw [he] at hf
    cases hf
    exact .load x s
  | @turn ts e₁ e₂ t past now ih =>
    have hi : t.input.adopts = false := hts t List.mem_cons_self
    cases hf₁ : e₁.flight with
    | none =>
      rw [Engine.unloaded_step hf₁ hi now] at hf
      cases hf
    | some f₁ =>
      have h₁ : Counted x s ts f₁ := ih (fun u hu => hts u (List.mem_cons_of_mem t hu)) hf₁
      obtain ⟨ht, hmakes⟩ := Engine.makes_step hf₁ hi now
      cases hmakes with
      | keep hk hc =>
        rw [hf] at hk
        have hcounted := h₁.core.bring (e₁.state.phase = .playing) ht hc
        rw [← Option.some.inj hk] at hcounted
        exact hcounted.of_core
      | halt hu hk hc =>
        rw [hf] at hk
        have hcounted := h₁.core.commit (e₁.state.phase = .playing) ht hu hc
        rw [← Option.some.inj hk] at hcounted
        exact hcounted.of_core
      | unload hn =>
        rw [hf] at hn
        cases hn

end Sequel

namespace Engine

variable {x : Execution} {s : Sequence} {ts : List Turn} {t : Turn} {e e₀ e₁ e₂ : Engine}
  {w : Outlook} {log : List Effect}

theorem flight_of_setup (h : e.step w (.wish (.setup x s)) = .ok (e₀, log)) :
    e₀.flight = some (.load x s) := by
  obtain ⟨d, hd, rfl, -⟩ := handle_of_step h
  cases hd
  show (setState _ _).flight = _
  unfold setState
  split <;> rfl

/-- **From its setup until it is unloaded, what a run says of its items agrees.** -/
theorem accounted (hset : e.step w (.wish (.setup x s)) = .ok (e₀, log)) (past : Sequel e₀ ts e₁)
    (now : e₁.step t.outlook t.input = .ok (e₂, t.effects))
    (hts : ∀ u ∈ t :: ts, u.input.adopts = false) (hloaded : e₁.flight.isSome) :
    t.Accounted (·.missionId = x.missionId) x s ts e₁ e₂ := by
  obtain ⟨f, hf⟩ := Option.isSome_iff_exists.mp hloaded
  have hcounted : Counted x s ts f :=
    past.counted (flight_of_setup hset) (fun u hu => hts u (List.mem_cons_of_mem t hu)) hf
  obtain ⟨ht, hmakes⟩ := makes_step hf (hts t List.mem_cons_self) now
  refine ⟨hcounted.increasing_reached ht, fun item hitem => ?_, fun hp henters => ?_⟩
  · rw [← hcounted.accepts_iff, ht, Option.mem_toList, Flight.accepted?, hitem]
    simp [Option.filter_some]
  · cases hmakes with
    | keep _ hc hkept =>
      rcases henters with hne | hne
      · exact absurd (hkept hp) hne
      · exact absurd hc hne
    | unload _ _ hnone =>
      rw [hnone] at hp
      exact absurd hp (by decide)
    | halt hu _ hc hs =>
      obtain ⟨y, hy, hcarried⟩ := hs
      obtain ⟨hlast, hfirst, hend⟩ := Execution.cursor_of_same hcarried
      have hbefore : e₁.execution? = some f.record := by rw [execution?, hf]; rfl
      refine ⟨f.record, y, hbefore, hy, fun last hl => ?_⟩
      rw [← hcounted.core.latest_bring (e₁.state.phase = .playing) ht] at hl
      obtain ⟨hlast', hfirst', hend'⟩ := f.core.cursor_committed_bring _ _ hu hl
      rw [hlast, hfirst, hend, hlast', hfirst', hend', ← hcounted.commands]
      exact ⟨rfl, rfl, rfl⟩

end Engine

/-! ### Samples -/

/-- Two waypoints and a way home. -/
def tour : Sequence :=
  [.takeOff, .waypoint ⟨1, 1⟩ 5 0 0 .relative, .waypoint ⟨1, 2⟩ 5 0 0 .relative, .returnToLaunch]

/-- The sample is loaded with the tour. -/
def loaded : Engine :=
  { ({} : Engine).setup sample tour with log := [] }

/-- The turns and the engine that come of inputs after the setup. -/
def afterwards (inputs : List Input) : List Turn × Engine :=
  (smoothly inputs).foldl extend ([], loaded)

def reportItem (item : Nat) : Input :=
  .notice (.interface (some { state := .active, executed := some item }))

/-- Two items are reached, with a late report between them, and the pilot wants a pause. -/
def leg : List Input :=
  [reportIdle, .notice (.camera .ready), .wish .play, reportActive, reportItem 1, reportItem 0,
    reportItem 2, .wish .pause]

/-- After the leg the aircraft has paused, and the record carries the second item. -/
theorem accounted_leg :
    reached (afterwards leg).1 = [1, 2] ∧ ∃ (t : Turn) (e : Engine), t.input = reportPaused ∧
      (afterwards leg).2.step {} t.input = .ok (e, t.effects) ∧ e.state.phase = .paused ∧
      t.Accounted (·.missionId = sample.missionId) sample tour (afterwards leg).1
        (afterwards leg).2 e := by
  have hts : ∀ u ∈ (afterwards leg).1, u.input.adopts = false := by decide
  refine ⟨by decide, ⟨{}, reportPaused, _⟩, _, rfl, Engine.step_of_handle rfl, ?_, ?_⟩
  · decide
  exact Engine.accounted (e := {}) (w := {}) (Engine.step_of_handle rfl)
    (sequel_foldl_extend (smoothly leg) .here) (Engine.step_of_handle rfl)
    (List.forall_mem_cons.mpr ⟨rfl, hts⟩) (by decide)

/-- A version of the record of another mission, further on. -/
def stray : Execution :=
  { sample with mission := { sample.mission with id := "meadow", cursor := { lastItem := 5 } } }

/-- A version of another mission does not count: reports are not measured by it. -/
theorem not_forall_accounted :
    ¬ ∀ x s ts (t : Turn) (e e₀ e₁ e₂ : Engine) w log, e.step w (.wish (.setup x s)) = .ok (e₀, log) →
      Sequel e₀ ts e₁ → e₁.step t.outlook t.input = .ok (e₂, t.effects) →
      (∀ u ∈ t :: ts, u.input.adopts = false) → e₁.flight.isSome = true →
      t.Accounted (fun _ => true) x s ts e₁ e₂ := by
  intro hall
  have hts : ∀ u ∈ (afterwards [.wish (.update stray)]).1, u.input.adopts = false := by decide
  have h := hall sample tour _ ⟨{}, reportItem 3, _⟩ {} _ _ _ {} _ (Engine.step_of_handle rfl)
    (sequel_foldl_extend (smoothly [.wish (.update stray)]) .here) (Engine.step_of_handle rfl)
    (List.forall_mem_cons.mpr ⟨rfl, hts⟩) (by decide)
  have hmem := (h.accepts 3 rfl).mp (by decide)
  exact absurd hmem.2 (by decide)

end Run

end Sortie
