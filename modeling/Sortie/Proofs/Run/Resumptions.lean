import Sortie.Proofs.Run.Activations
import Sortie.Proofs.Run.Items

/-!
# Where a mission is resumed

A resumption begins at the item in the cursor of the record.  Of the mission loaded last the turns
of a run tell (`tale?`) the last item accepted, and the item that the record was noted with: as it
was loaded or updated, or as it was committed when the run came to a halt.  While a resumption may
come, the cursor holds the item noted, whatever has been accepted since (`Tells.resting`).

So a mission is resumed at the last item accepted if, since the record was committed, no item was
accepted and no version of the record came in.  Without such a version it is not resumed beyond that
item, but it may be resumed behind it (`History.resumes`).
-/

namespace Sortie.Run

/-! ### What turns tell -/

/-- What turns tell of the mission loaded last. -/
structure Tale where
  missionId : String
  /-- The last item accepted. -/
  accepted : Option Nat
  /-- The item that the record was noted with. -/
  noted : Nat

/-- The item that the record of a mission is noted with in a turn. -/
def Turn.noted? (t : Turn) (missionId : String) : Option Nat :=
  ((t.input.update?.filter (·.missionId = missionId)).toList ++ t.commits).getLast?.map
    (·.cursor.lastItem)

/-- What is told of a mission that stays loaded, once a turn has told its part. -/
def Turn.prolong (t : Turn) (l : Tale) : Tale :=
  { l with
    accepted := t.items.getLast? <|> l.accepted
    noted := (t.noted? l.missionId).getD l.noted }

/-- A mission is loaded, a run is taken over, or the mission stays loaded. -/
def Turn.tell (t : Turn) (before : Option Tale) : Option Tale :=
  match t.input with
  | .wish (.setup x _) => some ⟨x.missionId, none, x.cursor.lastItem⟩
  | .wish (.catchUp item _ _) => before.map fun l => { l with accepted := some item, noted := item }
  | _ => before.map t.prolong

/-- What the turns of a run tell, the latest first. -/
def tale? (ts : List Turn) : Option Tale :=
  ts.foldr Turn.tell none

/-- The turns since the record was committed. -/
def sinceCommit (ts : List Turn) : List Turn :=
  ts.takeWhile (·.commits.isEmpty)

/-- A version of the record of a mission comes in. -/
def Turn.Revises (t : Turn) (missionId : String) : Prop :=
  ∃ x, t.input.update? = some x ∧ x.missionId = missionId

/-- What is noted and what is accepted, given what came in since the record was committed. -/
def Tale.IsUpTo (l : Tale) (ts : List Turn) : Prop :=
  ∀ last, l.accepted = some last → (∀ t ∈ sinceCommit ts, ¬ t.Revises l.missionId) →
    l.noted ≤ last ∧ ((∀ t ∈ sinceCommit ts, t.items = []) → l.noted = last)

namespace Registers

/-- A resumption may come. -/
def Resting (r : Registers) : Prop :=
  r.phase = .paused ∨ ∃ s, r.settling = some s ∧ s.restart = false

variable {w : Outlook} {f : Facts} {r r' : Registers} {i : Input}

theorem Coherent.not_playing_of_resting (hr : r.Coherent) (h : r.Resting) : r.phase ≠ .playing := by
  rcases h with h | ⟨s, hs, -⟩
  · rw [h]
    decide
  · exact (hr.of_settling (by rw [hs]; rfl)).not_playing

theorem Outcome.settling_eq {o : Option Order} (h : Outcome w r o r') {s : Settling}
    (hs : r'.settling = some s) : r.settling = some s := by
  cases h with
  | grounded | sent | cleaning => exact hs
  | rejected | canceled => cases hs

/-- A resumption is put off only by a wish for it while the mission is paused. -/
theorem Move.resting_of_settling (h : Move w f r i r') {s : Settling} (hs : r'.settling = some s)
    (hrestart : s.restart = false) : r.Resting := by
  have hkept {s : Settling} (hs : r.settling = some s) (hrestart : s.restart = false) : r.Resting :=
    .inr ⟨s, hs, hrestart⟩
  cases h with
  | stay | empty | unready | rest | hold | goHome | drop => exact hkept hs hrestart
  | attempt _ _ _ ho => exact hkept (ho.settling_eq hs) hrestart
  | settled _ _ _ ho => cases ho.settling_eq hs
  | cleaned _ _ ho => exact hkept (ho.settling_eq hs) hrestart
  | defer ha =>
    obtain rfl := Option.some.inj hs
    cases ha with
    | play => cases hrestart
    | unpause hp => exact .inl hp
  | load | unload | pause | quiet | stop | catchUp | lose | finish | start | abandon | exhausted
  | canceled | timeout => cases hs
  | unsettled hsome =>
    obtain rfl := Option.some.inj hs
    exact hkept hsome hrestart

end Registers

/-! ### What a flight has of the tale -/

/-- A flight is as the tale of its mission says, and so is its record if a resumption may come. -/
structure Tells (l : Tale) (resting : Prop) (f : Flight) : Prop where
  missionId : f.record.missionId = l.missionId
  latest : f.latest = l.accepted
  floor : f.floor = l.noted
  /-- Before the first item, the record keeps the item that it was last kept with. -/
  fresh : f.latest = none → f.record.cursor.lastItem = f.floor
  resting : resting → f.record.cursor.lastItem = f.floor

namespace Flight

variable {f : Flight} {i : Input}

/-- A record that no item goes into keeps the item that it was last kept with. -/
theorem rested_bring (h : f.record.cursor.lastItem = f.floor) :
    (f.bring false i).record.cursor.lastItem = (f.bring false i).floor := by
  have hreceive : (f.receive false i).record.cursor.lastItem = (f.receive false i).floor := by
    rw [record_receive, floor_receive]
    cases f.accepted? i <;> exact h
  unfold bring
  cases i.update? with
  | none => exact hreceive
  | some x => exact fresh_replace hreceive x

/-- A record that is committed is noted with its own item. -/
theorem rested_commit (h : f.latest = none → f.record.cursor.lastItem = f.floor) :
    f.commit.record.cursor.lastItem = f.commit.floor := by
  show f.committed.cursor.lastItem = f.latest.getD f.floor
  rw [cursor_committed]
  cases hl : f.latest with
  | none => exact h hl
  | some item => rfl

end Flight

namespace Turn

variable {t : Turn} {l : Tale}

theorem tell_of_not_adopts (h : t.input.adopts = false) (l : Tale) :
    t.tell (some l) = some (t.prolong l) := by
  obtain ⟨w, i, log⟩ := t
  cases i with
  | wish x =>
    cases x with
    | setup | catchUp => cases h
    | play | pause | unpause | stop | reset | update | setAvailability => rfl
  | notice | tick | poll | timeout => rfl

end Turn

namespace Tells

variable {l : Tale} {resting : Prop} {f : Flight} {t : Turn}

theorem of_core (h : Tells l resting f.core) : Tells l resting f :=
  ⟨h.missionId, h.latest, h.floor, h.fresh, h.resting⟩

theorem core (h : Tells l resting f) : Tells l resting f.core :=
  ⟨h.missionId, h.latest, h.floor, h.fresh, h.resting⟩

theorem load (x : Execution) (s : Sequence) (resting : Prop) :
    Tells ⟨x.missionId, none, x.cursor.lastItem⟩ resting (.load x s) :=
  ⟨rfl, rfl, rfl, fun _ => rfl, fun _ => rfl⟩

/-- What is told once an input has brought what it brings. -/
theorem bring (h : Tells l resting f) (playing : Bool)
    (ht : t.items = (f.accepted? t.input).toList) (hc : t.commits = []) {resting' : Prop}
    (hrest : resting' → resting ∧ playing = false) :
    Tells (t.prolong l) resting' (f.bring playing t.input) where
  missionId := (f.missionId_bring playing t.input).trans h.missionId
  latest := by
    rw [Flight.latest_bring, Turn.prolong, ht, h.latest]
    cases f.accepted? t.input <;> rfl
  floor := by
    rw [Flight.floor_bring, Turn.prolong, Turn.noted?, hc, List.append_nil, h.missionId, h.floor]
    cases t.input.update?.filter (·.missionId = l.missionId) <;> rfl
  fresh := f.fresh_bring playing t.input h.fresh
  resting hr := by
    obtain ⟨hr, rfl⟩ := hrest hr
    exact Flight.rested_bring (h.resting hr)

/-- What is told once the record has been committed. -/
theorem commit (h : Tells l resting f) (playing : Bool)
    (ht : t.items = (f.accepted? t.input).toList) (hu : t.input.update? = none)
    (hc : t.commits = [(f.bring playing t.input).committed]) (resting' : Prop) :
    Tells (t.prolong l) resting' (f.bring playing t.input).commit := by
  have hrested : (f.bring playing t.input).commit.record.cursor.lastItem
      = (f.bring playing t.input).commit.floor :=
    Flight.rested_commit (f.fresh_bring playing t.input h.fresh)
  refine ⟨?_, ?_, ?_, fun _ => hrested, fun _ => hrested⟩
  · rw [Flight.missionId_commit, Flight.missionId_bring, h.missionId]
    rfl
  · show (f.bring playing t.input).latest = _
    rw [Flight.latest_bring, Turn.prolong, ht, h.latest]
    cases f.accepted? t.input <;> rfl
  · rw [← hrested, Turn.prolong, Turn.noted?, hu, hc]
    rfl

variable {ts : List Turn}

/-- An item that comes in is not behind the item noted, and without one nothing changes. -/
theorem isUpTo_bring (h : Tells l resting f) (hl : l.IsUpTo ts)
    (ht : t.items = (f.accepted? t.input).toList) (hc : t.commits = []) :
    (t.prolong l).IsUpTo (t :: ts) := by
  have hsince : sinceCommit (t :: ts) = t :: sinceCommit ts :=
    List.takeWhile_cons_of_pos (by rw [hc]; rfl)
  intro last hlast hrevised
  rw [hsince] at hrevised ⊢
  have hnoted : (t.prolong l).noted = l.noted := by
    have hnot : ¬ t.Revises l.missionId := hrevised t List.mem_cons_self
    have hfilter : t.input.update?.filter (·.missionId = l.missionId) = none :=
      Option.filter_eq_none_iff.mpr fun x hx hid => hnot ⟨x, hx, of_decide_eq_true hid⟩
    rw [Turn.prolong, Turn.noted?, hfilter, hc]
    rfl
  have haccepted : (t.prolong l).accepted = (f.accepted? t.input <|> l.accepted) := by
    rw [Turn.prolong, ht]
    cases f.accepted? t.input <;> rfl
  rw [hnoted]
  rw [haccepted] at hlast
  cases hitem : f.accepted? t.input with
  | some item =>
    rw [hitem] at hlast ht
    obtain rfl : item = last := Option.some.inj hlast
    have haccepts : f.accepts item = true := (Option.filter_eq_some_iff.mp hitem).2
    have hle : f.floor ≤ item := by
      rw [Flight.accepts, Bool.and_eq_true] at haccepts
      exact of_decide_eq_true haccepts.2
    refine ⟨h.floor ▸ hle, fun hnone => ?_⟩
    rw [hnone t List.mem_cons_self] at ht
    cases ht
  | none =>
    rw [hitem] at hlast
    obtain ⟨hle, heq⟩ := hl last hlast fun u hu => hrevised u (List.mem_cons_of_mem t hu)
    exact ⟨hle, fun hnone => heq fun u hu => hnone u (List.mem_cons_of_mem t hu)⟩

/-- A record that has just been committed is up to the last item. -/
theorem isUpTo_commit (h : Tells l resting f) (playing : Bool)
    (ht : t.items = (f.accepted? t.input).toList) (hu : t.input.update? = none)
    (hc : t.commits = [(f.bring playing t.input).committed]) :
    (t.prolong l).IsUpTo (t :: ts) := by
  intro last hlast _
  have hlatest : (f.bring playing t.input).latest = some last :=
    (h.commit playing ht hu hc False).latest.trans hlast
  have hnoted : (t.prolong l).noted = last := by
    rw [Turn.prolong, Turn.noted?, hu, hc]
    exact (f.cursor_committed_bring playing t.input hu hlatest).1
  exact ⟨Nat.le_of_eq hnoted, fun _ => hnoted⟩

end Tells

/-- Before the first item there is nothing to be up to. -/
theorem Tale.isUpTo_of_accepted {l : Tale} {ts : List Turn}
    (h : ∀ last, l.accepted = some last → l.noted = last) : l.IsUpTo ts :=
  fun last hlast _ => ⟨Nat.le_of_eq (h last hlast), fun _ => h last hlast⟩

/-! ### What a run keeps -/

namespace Engine

variable {e e' : Engine} {t : Turn} {ts : List Turn} {f : Flight} {w : Outlook} {i : Input}
  {log : List Effect}

/-- The turns tell of the mission that is loaded. -/
def IsToldBy (e : Engine) (ts : List Turn) : Prop :=
  ∀ f, e.flight = some f → ∃ l, tale? ts = some l ∧ Tells l e.registers.Resting f ∧ l.IsUpTo ts

theorem catchUp_of_unloaded (hf : e.flight = none) (item : Nat) (recovery : Option String)
    (elapsed : Clock.Span) : e.catchUp item recovery elapsed = e := by
  unfold catchUp
  rw [hf]

theorem flight_catchUp (hf : e.flight = some f) (item : Nat) (recovery : Option String)
    (elapsed : Clock.Span) :
    (e.catchUp item recovery elapsed).flight.map Flight.core =
      some { f.withRecovery recovery with latest := some item, elapsed }.commit.core := by
  let g : Flight := { f.withRecovery recovery with latest := some item, elapsed }
  let d : Engine := ({ e with intent := .playing, flight := some g } : Engine).showElapsed elapsed
  have hd : d.flight = some g := by
    show (showElapsed _ _).flight = _
    unfold showElapsed
    split <;> rfl
  have hcatch : e.catchUp item recovery elapsed = d.commit.start := by
    unfold catchUp
    rw [hf]
  rw [hcatch]
  have haccount := (keeps_start d.commit).account.trans (account_commit hd)
  exact congrArg Account.flight haccount

theorem isToldBy_setup {x : Execution} {s : Sequence} (ht : t.input = .wish (.setup x s))
    (hs : e.step t.outlook t.input = .ok (e', t.effects)) : e'.IsToldBy (t :: ts) := by
  intro f hf
  rw [ht] at hs
  obtain rfl : .load x s = f := Option.some.inj ((flight_of_setup hs).symm.trans hf)
  refine ⟨⟨x.missionId, none, x.cursor.lastItem⟩, ?_, .load x s _, ?_⟩
  · show t.tell (tale? ts) = _
    rw [Turn.tell, ht]
  · exact Tale.isUpTo_of_accepted nofun

theorem isToldBy_catchUp {item : Nat} {recovery : Option String} {elapsed : Clock.Span}
    (h : e.IsToldBy ts) (ht : t.input = .wish (.catchUp item recovery elapsed))
    (hs : e.step t.outlook t.input = .ok (e', t.effects)) : e'.IsToldBy (t :: ts) := by
  obtain ⟨d, hd, rfl, -⟩ := handle_of_step hs
  rw [ht] at hd
  cases hd
  intro g hg
  cases hf : e.flight with
  | none =>
    have hnone : (({ e with log := [] } : Engine).catchUp item recovery elapsed).flight = none := by
      rw [catchUp_of_unloaded (e := { e with log := [] }) hf]
      exact hf
    cases hnone.symm.trans hg
  | some f =>
    obtain ⟨l, hl, htells, -⟩ := h f hf
    have hg : (({ e with log := [] } : Engine).catchUp item recovery elapsed).flight = some g := hg
    have hflight := flight_catchUp (e := { e with log := [] }) hf item recovery elapsed
    rw [hg] at hflight
    have hcore : g.core
        = { f.withRecovery recovery with latest := some item, elapsed }.commit.core :=
      Option.some.inj hflight
    refine ⟨{ l with accepted := some item, noted := item }, ?_, .of_core ?_, ?_⟩
    · show t.tell (tale? ts) = _
      rw [Turn.tell, ht, hl]
      rfl
    · rw [hcore]
      exact ⟨htells.missionId, rfl, rfl, nofun, fun _ => rfl⟩
    · exact Tale.isUpTo_of_accepted fun _ => Option.some.inj

/-- A resumption may come only of a mission that could be resumed before or comes to a halt. -/
theorem resting_of_step (he : e.Reachable) (hs : e.step w i = .ok (e', log))
    (hkept : e'.state.phase.IsHalted → e'.state.phase = e.state.phase)
    (h : e'.registers.Resting) : e.registers.Resting := by
  rcases h with hp | ⟨s, hsome, hrestart⟩
  · have hp : e'.state.phase = .paused := hp
    exact .inl ((hkept (.inl hp)).symm.trans hp)
  · exact (move_step he.coherent.backed hs).resting_of_settling hsome hrestart

/-- A mission that stays loaded is told of by one turn more. -/
theorem isToldBy_stay (he : e.Reachable) (h : e.IsToldBy ts) (hi : t.input.adopts = false)
    (hs : e.step t.outlook t.input = .ok (e', t.effects)) : e'.IsToldBy (t :: ts) := by
  intro f' hf'
  cases hf : e.flight with
  | none =>
    rw [unloaded_step hf hi hs] at hf'
    cases hf'
  | some f =>
    obtain ⟨l, hl, htells, hupTo⟩ := h f hf
    obtain ⟨ht, hmakes⟩ := makes_step hf hi hs
    have htale : tale? (t :: ts) = some (t.prolong l) := by
      show t.tell (tale? ts) = _
      rw [hl, Turn.tell_of_not_adopts hi]
    refine ⟨t.prolong l, htale, ?_⟩
    cases hmakes with
    | keep hk hc hp =>
      rw [hf'] at hk
      have hcore : f'.core = f.core.bring (e.state.phase = .playing) t.input := Option.some.inj hk
      refine ⟨.of_core ?_, htells.isUpTo_bring hupTo ht hc⟩
      rw [hcore]
      -- While a resumption may come no item goes into the record.
      refine htells.core.bring _ ht hc fun hrest => ?_
      have hresting := resting_of_step he hs hp hrest
      exact ⟨hresting, decide_eq_false (he.coherent.not_playing_of_resting hresting)⟩
    | halt hu hk hc =>
      rw [hf'] at hk
      have hcore : f'.core = (f.core.bring (e.state.phase = .playing) t.input).commit :=
        Option.some.inj hk
      refine ⟨.of_core ?_, htells.core.isUpTo_commit _ ht hu hc⟩
      rw [hcore]
      exact htells.core.commit _ ht hu hc _
    | unload hn =>
      rw [hf'] at hn
      cases hn

theorem isToldBy_step (he : e.Reachable) (h : e.IsToldBy ts)
    (hs : e.step t.outlook t.input = .ok (e', t.effects)) : e'.IsToldBy (t :: ts) := by
  by_cases hi : t.input.adopts = false
  · exact isToldBy_stay he h hi hs
  · cases hinput : t.input with
    | wish x =>
      cases x with
      | setup => exact isToldBy_setup hinput hs
      | catchUp => exact isToldBy_catchUp h hinput hs
      | play | pause | unpause | stop | reset | update | setAvailability =>
        rw [hinput] at hi
        exact absurd rfl hi
    | notice | tick | poll | timeout =>
      rw [hinput] at hi
      exact absurd rfl hi

/-! ### Resumptions -/

/-- A resumption is asked for while the mission is paused, or it has been put off. -/
theorem resting_of_due {c : Cause} (h : e.Due i c) (hc : c = .resume) : e.registers.Resting := by
  cases h with
  | play | cleaned => cases hc
  | unpause hp => exact .inl hp
  | @settled i s _ hs =>
    refine .inr ⟨s, hs, ?_⟩
    rw [Settling.cause] at hc
    split at hc
    · cases hc
    · next hrestart => exact Bool.eq_false_iff.mpr hrestart

/-- A launch starts the mission and does not resume it. -/
theorem restart_launchOrder? {a : Activation} (h : e.launchOrder? w = some (.activate a)) :
    a.restart = true := by
  obtain ⟨f, -, h⟩ := Option.bind_eq_some_iff.mp h
  split at h
  · cases h
  · split at h
    · cases h
      rfl
    · split at h
      · cases h
      · cases h
        rfl

/-- An activation that does not restart the mission is a resumption, at the item of the record. -/
theorem exists_resume {a : Activation} (hs : e.step w i = .ok (e', log))
    (ha : .activate a ∈ sent log) (hrestart : a.restart = false) :
    ∃ f, e.flight = some f ∧ e.registers.Resting ∧ a.startItem = f.record.cursor.lastItem := by
  rw [sent_step hs] at ha
  rcases List.mem_append.mp ha with ha | ha
  · cases directOrders_activates ha
  · obtain ⟨c, hc, hattempt⟩ := Option.bind_eq_some_iff.mp (Option.mem_toList.mp ha)
    have hdue := due_of_cause? hc
    cases c with
    | launch =>
      rw [restart_launchOrder? hattempt] at hrestart
      cases hrestart
    | cleanedUp item =>
      obtain ⟨f, hf, heq⟩ := Option.map_eq_some_iff.mp hattempt
      cases heq
      cases hrestart
    | resume =>
      obtain ⟨f, hf, heq⟩ := Option.map_eq_some_iff.mp hattempt
      cases heq
      exact ⟨f, hf, resting_of_due hdue rfl, rfl⟩

end Engine

namespace History

variable {settings : RunSettings} {ts : List Turn} {e e' : Engine} {w : Outlook} {i : Input}
  {log : List Effect} {a : Activation}

theorem isToldBy (h : History settings ts e) : e.IsToldBy ts := by
  induction h with
  | fresh =>
    intro f hf
    cases hf
  | turn past now ih => exact Engine.isToldBy_step past.reachable ih now

/-- **Where a mission is resumed.** -/
theorem resumes (h : History settings ts e) (hs : e.step w i = .ok (e', log))
    (ha : .activate a ∈ sent log) (hrestart : a.restart = false) :
    ∃ l, tale? ts = some l ∧ a.startItem = l.noted ∧
      ∀ last, l.accepted = some last → (∀ t ∈ sinceCommit ts, ¬ t.Revises l.missionId) →
        a.startItem ≤ last ∧ ((∀ t ∈ sinceCommit ts, t.items = []) → a.startItem = last) := by
  obtain ⟨f, hf, hresting, hitem⟩ := Engine.exists_resume hs ha hrestart
  obtain ⟨l, hl, htells, hupTo⟩ := h.isToldBy f hf
  have hnoted : a.startItem = l.noted :=
    hitem.trans ((htells.resting hresting).trans htells.floor)
  refine ⟨l, hl, hnoted, ?_⟩
  rw [hnoted]
  exact hupTo

end History

/-! ### Items reported while a mission is paused -/

/-- The aircraft has paused the mission at an item. -/
def reportHeld (item : Nat) : Input :=
  .notice (.interface (some { state := .idle, isPaused := true, executed := some item }))

/-- The tour is paused at its first waypoint. -/
def interlude : List Input :=
  [reportIdle, .notice (.camera .ready), .wish (.setup sample tour), .wish .play, reportItem 1,
    .wish .pause, reportHeld 1]

/-- The resumption of the sample at an item. -/
def resumption (item : Nat) : Activation where
  restart := false
  interpreter := .standard
  startItem := item
  lostLink := .returnHome

theorem resumes_interlude :
    ∃ e' log, (trial {} (smoothly interlude)).2.step {} (.wish .unpause) = .ok (e', log) ∧
      ∃ l, tale? (trial {} (smoothly interlude)).1 = some l ∧ l.accepted = some 1 ∧
        (resumption 1).startItem = l.noted := by
  have hsent : (trial {} (smoothly interlude)).2.orders {} (.wish .unpause)
      = [.activate (resumption 1)] := by decide +kernel
  have haccepted : (tale? (trial {} (smoothly interlude)).1).bind Tale.accepted = some 1 := by
    decide +kernel
  have hs : (trial {} (smoothly interlude)).2.step {} (.wish .unpause) = _ :=
    Engine.step_of_handle rfl
  have ha := List.mem_singleton_self (Order.activate (resumption 1))
  rw [← hsent, ← Engine.sent_step hs] at ha
  obtain ⟨l, hl, hnoted, -⟩ := (history_trial {} (smoothly interlude)).resumes hs ha rfl
  rw [hl] at haccepted
  exact ⟨_, _, hs, l, hl, haccepted, hnoted⟩

/-- Once an item is accepted while the mission is paused, it is resumed behind that item. -/
theorem not_forall_resumes :
    ¬ ∀ settings ts e e' w i log a l last, History settings ts e → e.step w i = .ok (e', log) →
      .activate a ∈ sent log → a.restart = false → tale? ts = some l → l.accepted = some last →
      a.startItem = last := by
  intro hall
  have hsent : (trial {} (smoothly (interlude ++ [reportHeld 2]))).2.orders {} (.wish .unpause)
      = [.activate (resumption 1)] := by decide +kernel
  have haccepted : (tale? (trial {} (smoothly (interlude ++ [reportHeld 2]))).1).bind Tale.accepted
      = some 2 := by decide +kernel
  have hs : (trial {} (smoothly (interlude ++ [reportHeld 2]))).2.step {} (.wish .unpause) = _ :=
    Engine.step_of_handle rfl
  have ha := List.mem_singleton_self (Order.activate (resumption 1))
  rw [← hsent, ← Engine.sent_step hs] at ha
  obtain ⟨l, hl, hlast⟩ := Option.bind_eq_some_iff.mp haccepted
  have hsame := hall _ _ _ _ _ _ _ _ l 2 (history_trial {} (smoothly (interlude ++ [reportHeld 2])))
    hs ha rfl hl hlast
  exact absurd hsame (by decide)

end Sortie.Run
