import Sortie.Proofs.Mission.Sameness
import Sortie.Proofs.Run.Coherence

/-!
# What is told and shown

The engine holds more than one copy of most things: the board shows values of the flight, the watch
carries the active record, and the log tells of the state and of the progress whenever they change.
`Tracks` says that these copies are right, and that what is told leads from what was held to what is
held: states that differ each from the one before it, and shares that rise (`Climbs`).  The state
carries copies as well, of the record and of some flags (`State.Carries`), and `Agrees` says that
all of them are right.

An operation that changes the flight or the facts puts the state out of date until it sets it anew,
so on the way only `Tracks` is kept, and `Agrees` is had again from `Tracks.setState`.
-/

namespace Sortie.Run

theorem Watch.eq_of_refresh? {w v : Watch} {x : Execution} (h : w.refresh? x = some v) :
    v = .active x := by
  cases w with
  | none | activating => cases h
  | active current =>
    simp only [refresh?] at h
    split at h
    · exact (Option.some.inj h).symm
    · cases h

/-! ### Walks -/

/-- A walk from one place over those of a list, in order, to another one. -/
def Path {α : Type} (R : α → α → Prop) : α → List α → α → Prop
  | a, [], b => a = b
  | a, c :: l, b => R a c ∧ Path R c l b

namespace Path

variable {α : Type} {R : α → α → Prop} {a b c : α} {l m : List α}

theorem append (h : Path R a l b) (h' : Path R b m c) : Path R a (l ++ m) c := by
  induction l generalizing a with
  | nil =>
    obtain rfl : a = b := h
    exact h'
  | cons d l ih => exact ⟨h.1, ih h.2⟩

theorem snoc (h : Path R a l b) (hr : R b c) : Path R a (l ++ [c]) c :=
  h.append ⟨hr, rfl⟩

theorem imp {S : α → α → Prop} (hRS : ∀ {a b}, R a b → S a b) (h : Path R a l b) : Path S a l b := by
  induction l generalizing a with
  | nil => exact h
  | cons c l ih => exact ⟨hRS h.1, ih h.2⟩

theorem isChain (h : Path R a l b) : (a :: l).IsChain R := by
  induction l generalizing a with
  | nil => exact List.IsChain.singleton a
  | cons c l ih => exact List.IsChain.cons_cons h.1 (ih h.2)

theorem end_eq (h : Path R a l b) : b = l.getLast?.getD a := by
  induction l generalizing a with
  | nil => exact Eq.symm h
  | cons c l ih => rw [ih h.2, List.getLast?_cons, Option.getD_some]

theorem exists_of_mem (h : Path R a l b) (hc : c ∈ l) : ∃ d, R d c := by
  induction l generalizing a with
  | nil => cases hc
  | cons d l ih =>
    rcases List.mem_cons.mp hc with rfl | hc
    · exact ⟨a, h.1⟩
    · exact ih h.2 hc

end Path

/-- The states told of. -/
def changes (log : List Effect) : List State :=
  log.filterMap Effect.state?

def Effect.progress? : Effect → Option Float
  | .event (.progressed progress _) => some progress
  | .event _ | .order .. | .show _ => none

/-- The shares told of. -/
def shares (log : List Effect) : List Float :=
  log.filterMap Effect.progress?

/-- Neither of the state nor of the progress anything is told. -/
def Silent (log : List Effect) : Prop :=
  log.filterMap Effect.state? = [] ∧ log.filterMap Effect.progress? = []

/-- Two states that are not taken for equal. -/
def State.Differs (s t : State) : Prop :=
  (s == t) = false

/-- A share measured on a flight with these commands, and not below another one. -/
def Rises (s : Sequence) (precision : Nat) (p q : Float) : Prop :=
  ¬ q ≤ p ∧ ∃ (f : Flight) (place : Option Geo.Point) (latest waypoint : Nat),
    f.commands = s ∧ q = Decimal.roundTo (f.share place latest waypoint) precision

/-- The flight that an input loads. -/
def Input.loaded? : Input → Option Flight
  | .wish (.setup x s) => some (.load x s)
  | _ => none

/-- What the state carries is what the engine holds: the record of the flight, the link, the
availability, and whether the flight is homeward. -/
def State.Carries (x : Option Execution) (homeward : Bool) (facts : Facts) : State → Prop
  | noMission | failed _ => True
  | idle y a => (∃ z, x = some z ∧ Same y z) ∧ a = facts.availability
  | playing c y h => (∃ z, x = some z ∧ Same y z) ∧ c = facts.connected ∧ h = homeward
  | returning y | ended _ y => ∃ z, x = some z ∧ Same y z
  | paused c y a => (∃ z, x = some z ∧ Same y z) ∧ c = facts.connected ∧ a = facts.availability

theorem State.Carries.same {x : Option Execution} {homeward : Bool} {facts : Facts} {s : State}
    (h : s.Carries x homeward facts) {y : Execution} (hy : s.execution? = some y) :
    ∃ z, x = some z ∧ Same y z := by
  cases s <;> cases hy
  case idle | playing | paused => exact h.1
  case returning | ended => exact h

namespace Engine

def tellAll (e : Engine) (log : List Effect) : Engine :=
  { e with log := e.log ++ log }

def isHomeward (e : Engine) : Bool :=
  e.flight.any Flight.isHomeward

/-- A share that the progress of the flight may rise to. -/
def MayRise (e : Engine) (p q : Float) : Prop :=
  ∃ f, e.flight = some f ∧ Rises f.commands e.settings.precision p q

/-- The shares lead from the progress of one engine to that of another one with the same commands,
or to one without a flight. -/
def Climbs (e : Engine) (shares : List Float) (e' : Engine) : Prop :=
  ∃ p, Path e.MayRise e.progress shares p ∧
    ∀ f', e'.flight = some f' → f'.progress = p ∧ ∃ f, e.flight = some f ∧ f'.commands = f.commands

theorem execution?_of_flight {e : Engine} {f : Flight} (hf : e.flight = some f) :
    e.execution? = some f.record := by
  simp [execution?, hf]

theorem isHomeward_of_flight {e : Engine} {f : Flight} (hf : e.flight = some f) :
    e.isHomeward = f.isHomeward := by
  simp [isHomeward, hf]

/-- What the engine has told and shown since `e₀` is what it holds. -/
structure Tracks (e₀ e : Engine) : Prop where
  settings : e.settings = e₀.settings
  changes : Path State.Differs e₀.state (changes e.log) e.state
  shares : e₀.Climbs (shares e.log) e
  state : e.board.state = e.state
  progress : Same e.board.progress e.progress
  elapsed : e.board.elapsed = e.elapsed
  distance : Same e.board.distance e.distance
  ready : e.board.ready = e.facts.isReady
  /-- The active record is of another run, or it is the one loaded. -/
  watch : ∀ x, e.watch = .active x →
    ∃ f, e.flight = some f ∧ (x.id = f.record.id → Same x f.record)

/-- The state agrees with what the engine holds as well. -/
structure Agrees (e₀ e : Engine) : Prop where
  tracks : e₀.Tracks e
  carries : e.state.Carries e.execution? e.isHomeward e.facts

variable {e₀ e : Engine} {w : Outlook} {f : Flight}

theorem progress_of_flight (hf : e.flight = some f) : e.progress = f.progress := by
  simp [Engine.progress, hf]

theorem Climbs.refl (e : Engine) : e.Climbs [] e :=
  ⟨_, rfl, fun f hf => ⟨(progress_of_flight hf).symm, f, hf, rfl⟩⟩

/-- Another flight with the same progress. -/
theorem Climbs.withFlight {l : List Float} (h : e₀.Climbs l e) (hf : e.flight = some f) {d : Engine}
    {g : Flight} (hg : d.flight = some g) (hp : g.progress = f.progress)
    (hc : g.commands = f.commands) : e₀.Climbs l d := by
  obtain ⟨p, hpath, hend⟩ := h
  obtain ⟨hfp, f₀, hf₀, hfc⟩ := hend f hf
  refine ⟨p, hpath, fun g' hg' => ?_⟩
  obtain rfl : g = g' := Option.some.inj (hg.symm.trans hg')
  exact ⟨hp.trans hfp, f₀, hf₀, hc.trans hfc⟩

/-! ### What is told and shown -/

theorem Tracks.tellAll (h : e₀.Tracks e) {log : List Effect} (hl : Silent log) :
    e₀.Tracks (e.tellAll log) := by
  have hchanges : Run.changes (e.log ++ log) = Run.changes e.log := by
    rw [Run.changes, List.filterMap_append, hl.1, List.append_nil]
    rfl
  have hshares : Run.shares (e.log ++ log) = Run.shares e.log := by
    rw [Run.shares, List.filterMap_append, hl.2, List.append_nil]
    rfl
  exact { h with changes := hchanges ▸ h.changes, shares := hshares ▸ h.shares }

theorem Tracks.tell (h : e₀.Tracks e) {x : Effect} (hx : Silent [x]) : e₀.Tracks (e.tell x) :=
  h.tellAll hx

theorem Agrees.tell (h : e₀.Agrees e) {x : Effect} (hx : Silent [x]) : e₀.Agrees (e.tell x) :=
  ⟨h.tracks.tell hx, h.carries⟩

theorem Tracks.order (h : e₀.Tracks e) (w : Outlook) (o : Order) : e₀.Tracks (e.order w o) :=
  h.tell ⟨rfl, rfl⟩

theorem Agrees.order (h : e₀.Agrees e) (w : Outlook) (o : Order) : e₀.Agrees (e.order w o) :=
  h.tell ⟨rfl, rfl⟩

theorem Tracks.setWatch (h : e₀.Tracks e) {v : Watch}
    (hv : ∀ x, v = .active x → ∃ f, e.flight = some f ∧ (x.id = f.record.id → Same x f.record)) :
    e₀.Tracks (e.setWatch v) := by
  refine Tracks.tell ?_ ⟨rfl, rfl⟩
  exact { h with watch := hv }

theorem Agrees.setWatch (h : e₀.Agrees e) {v : Watch} (hv : v.active? = none) :
    e₀.Agrees (e.setWatch v) := by
  refine ⟨h.tracks.setWatch fun x hx => ?_, h.carries⟩
  rw [hx] at hv
  cases hv

/-! ### States -/

theorem carries_of_same {s t : State} {x : Option Execution} {homeward : Bool} {facts : Facts}
    (h : (s == t) = true) (ht : t.Carries x homeward facts) : s.Carries x homeward facts := by
  have hphase := State.phase_eq_of_beq h
  have hrecord {y y' : Execution} (hy : (y == y') = true) (hc : ∃ z, x = some z ∧ Same y' z) :
      ∃ z, x = some z ∧ Same y z := by
    obtain ⟨z, hz, hsame⟩ := hc
    exact ⟨z, hz, Same.trans (.inr hy) hsame⟩
  cases s with
  | noMission | failed => trivial
  | idle y a =>
    cases t with
    | idle y' a' =>
      have h : (y == y' && a == a') = true := h
      simp only [Bool.and_eq_true, beq_iff_eq] at h
      exact ⟨hrecord h.1 ht.1, h.2.trans ht.2⟩
    | _ => cases hphase
  | playing c y b =>
    cases t with
    | playing c' y' b' =>
      have h : (c == c' && (y == y' && b == b')) = true := h
      simp only [Bool.and_eq_true, beq_iff_eq] at h
      exact ⟨hrecord h.2.1 ht.1, h.1.trans ht.2.1, h.2.2.trans ht.2.2⟩
    | _ => cases hphase
  | returning y =>
    cases t with
    | returning y' => exact hrecord h ht
    | _ => cases hphase
  | paused c y a =>
    cases t with
    | paused c' y' a' =>
      have h : (c == c' && (y == y' && a == a')) = true := h
      simp only [Bool.and_eq_true, beq_iff_eq] at h
      exact ⟨hrecord h.2.1 ht.1, h.1.trans ht.2.1, h.2.2.trans ht.2.2⟩
    | _ => cases hphase
  | ended c y =>
    cases t with
    | ended c' y' =>
      have h : (c == c' && y == y') = true := h
      exact hrecord (Bool.and_eq_true_iff.mp h).2 ht
    | _ => cases hphase

theorem carries_of_facts {s : State} {x : Option Execution} {homeward : Bool} {facts facts' : Facts}
    (h : s.Carries x homeward facts) (hc : facts'.connected = facts.connected)
    (ha : facts'.availability = facts.availability) : s.Carries x homeward facts' := by
  cases s with
  | noMission | failed | returning | ended => exact h
  | idle => exact ⟨h.1, h.2.trans ha.symm⟩
  | playing => exact ⟨h.1, h.2.1.trans hc.symm, h.2.2⟩
  | paused => exact ⟨h.1, h.2.1.trans hc.symm, h.2.2.trans ha.symm⟩

theorem carries_withExecution {s : State} {x : Option Execution} {homeward : Bool} {facts : Facts}
    (h : s.Carries x homeward facts) (y : Execution) :
    (s.withExecution y).Carries (some y) homeward facts := by
  cases s with
  | noMission | failed => trivial
  | idle | playing | paused => exact ⟨⟨y, rfl, .refl y⟩, h.2⟩
  | returning | ended => exact ⟨y, rfl, .refl y⟩

theorem carries_of_none {s : State} (hs : s.execution? = none) (x : Option Execution)
    (homeward : Bool) (facts : Facts) : s.Carries x homeward facts := by
  cases s <;> trivial

theorem Tracks.setState (h : e₀.Tracks e) {s : State}
    (hs : s.Carries e.execution? e.isHomeward e.facts) : e₀.Agrees (e.setState s) := by
  unfold Engine.setState
  split
  · next heq => exact ⟨h, carries_of_same heq hs⟩
  · next hne =>
    have hchanges : Run.changes (e.log ++ [.show .state] ++ [.event (.stateChanged s)])
        = Run.changes e.log ++ [s] := by
      rw [List.append_assoc, Run.changes, List.filterMap_append]
      rfl
    have hshares : Run.shares (e.log ++ [.show .state] ++ [.event (.stateChanged s)])
        = Run.shares e.log := by
      simp [Run.shares, List.filterMap_append, Effect.progress?]
    refine ⟨?_, hs⟩
    exact { h with
      changes := hchanges ▸ h.changes.snoc (Bool.eq_false_iff.mpr hne)
      shares := hshares ▸ h.shares
      state := rfl }

theorem Tracks.fail (h : e₀.Tracks e) (f : Failure) : e₀.Agrees (e.fail f) := by
  unfold Engine.fail
  refine Tracks.setState (Tracks.setWatch ?_ ?_) trivial
  · exact { h with }
  · exact fun x hx => by cases hx

/-! ### Operations that tell nothing of the progress -/

theorem shares_tell (e : Engine) {x : Effect} (hx : x.progress? = none) :
    Run.shares (e.tell x).log = Run.shares e.log := by
  show Run.shares (e.log ++ [x]) = Run.shares e.log
  simp [Run.shares, hx]

theorem shares_show (e : Engine) (c : Prop) [Decidable c] (b : Board) (ch : Channel) :
    Run.shares (if c then e else ({ e with board := b } : Engine).tell (.show ch)).log
      = Run.shares e.log := by
  split
  · rfl
  · exact shares_tell _ rfl

theorem shares_setState (e : Engine) (s : State) :
    Run.shares (e.setState s).log = Run.shares e.log := by
  unfold Engine.setState
  split
  · rfl
  · exact (shares_tell _ rfl).trans (shares_tell _ rfl)

theorem shares_unload (e : Engine) : Run.shares e.unload.log = Run.shares e.log := by
  unfold Engine.unload
  dsimp only
  refine (shares_setState _ _).trans ?_
  refine (shares_show _ _ _ .navigating).trans ?_
  refine (shares_show _ _ _ .distance).trans ?_
  refine (shares_show _ _ _ .progress).trans ?_
  refine (shares_show _ _ _ .elapsed).trans ?_
  split
  · exact shares_tell _ rfl
  · rfl

/-! ### Flights -/

theorem state_refreshWatch (e : Engine) : e.refreshWatch.state = e.state := by
  unfold Engine.refreshWatch
  split <;> rfl

theorem Tracks.replace (h : e₀.Tracks e) (hf : e.flight = some f) (x : Execution)
    (latest : Option Nat) (floor : Nat) (recovery : Option String) {v : Watch}
    (hv : ∀ y, v = .active y → y.id = x.id → Same y x) :
    e₀.Tracks { e with flight := some { f with record := x, latest, floor, recovery }, watch := v } := by
  have hprogress : e.progress = f.progress := by simp [Engine.progress, hf]
  have hdistance : e.distance = f.distance := by simp [Engine.distance, hf]
  have helapsed : e.elapsed = f.elapsed := by simp [Engine.elapsed, hf]
  exact { h with
    shares := h.shares.withFlight hf rfl rfl rfl
    progress := hprogress ▸ h.progress
    elapsed := h.elapsed.trans helapsed
    distance := hdistance ▸ h.distance
    watch := fun y hy => ⟨_, rfl, hv y hy⟩ }

/-- The record stays as it is. -/
theorem Tracks.withFlight (h : e₀.Tracks e) (hf : e.flight = some f) (latest : Option Nat)
    (floor : Nat) (recovery : Option String) :
    e₀.Tracks { e with flight := some { f with latest, floor, recovery } } :=
  h.replace hf f.record latest floor recovery (v := e.watch) fun y hy hid => by
    obtain ⟨g, hg, hsame⟩ := h.watch y hy
    obtain rfl : f = g := Option.some.inj (hf.symm.trans hg)
    exact hsame hid

theorem Tracks.refresh (h : e₀.Tracks e) (hf : e.flight = some f) (x : Execution)
    (latest : Option Nat) (floor : Nat) (recovery : Option String) :
    e₀.Tracks ({ e with flight := some { f with record := x, latest, floor, recovery } } :
      Engine).refreshWatch := by
  let e₁ : Engine := { e with flight := some { f with record := x, latest, floor, recovery } }
  have hrefresh : e₁.execution?.bind e₁.watch.refresh? = e.watch.refresh? x := rfl
  show e₀.Tracks e₁.refreshWatch
  unfold Engine.refreshWatch
  rw [hrefresh]
  cases hw : e.watch.refresh? x with
  | none =>
    refine h.replace hf x latest floor recovery (v := e.watch) fun y hy hid => ?_
    have hsame : ¬ (y.id = x.id ∧ (y != x) = true) := fun hc => by
      rw [hy, Watch.refresh?, if_pos (by simpa using hc)] at hw
      cases hw
    by_contra hn
    exact hsame ⟨hid, by simp [bne, Bool.eq_false_iff.mpr fun hy => hn (.inr hy)]⟩
  | some v =>
    refine Tracks.tell ?_ ⟨rfl, rfl⟩
    refine h.replace hf x latest floor recovery (v := v) fun y hy hid => ?_
    have hv : v = .active x := Watch.eq_of_refresh? hw
    rw [hv] at hy
    exact .inl (Watch.active.inj hy).symm

theorem Tracks.commit (h : e₀.Tracks e) : e₀.Tracks e.commit := by
  unfold Engine.commit
  split
  · exact h
  · next f hf =>
    have hrefresh := h.refresh hf f.committed f.latest (f.latest.getD f.floor) f.recovery
    refine Tracks.tell ?_ ⟨rfl, rfl⟩
    exact { hrefresh with }

/-! ### Values shown -/

/-- A value that is shown differs from what is there at most by what is taken for equal. -/
theorem exists_showProgress (e : Engine) (x : Float) : ∃ y log, Same y x ∧ Silent log ∧
    e.showProgress x = ({ e with board := { e.board with progress := y } } : Engine).tellAll log := by
  unfold Engine.showProgress
  split
  · next h => exact ⟨e.board.progress, [], .inr h, ⟨rfl, rfl⟩, by simp [tellAll]⟩
  · exact ⟨x, [.show .progress], .inl rfl, ⟨rfl, rfl⟩, rfl⟩

theorem exists_showDistance (e : Engine) (x : Float) : ∃ y log, Same y x ∧ Silent log ∧
    e.showDistance x = ({ e with board := { e.board with distance := y } } : Engine).tellAll log := by
  unfold Engine.showDistance
  split
  · next h => exact ⟨e.board.distance, [], .inr h, ⟨rfl, rfl⟩, by simp [tellAll]⟩
  · exact ⟨x, [.show .distance], .inl rfl, ⟨rfl, rfl⟩, rfl⟩

theorem exists_showElapsed (e : Engine) (d : Clock.Span) : ∃ log, Silent log ∧
    e.showElapsed d = ({ e with board := { e.board with elapsed := d } } : Engine).tellAll log := by
  unfold Engine.showElapsed
  split
  · next h => exact ⟨[], ⟨rfl, rfl⟩, by simp [tellAll, ← h]⟩
  · exact ⟨[.show .elapsed], ⟨rfl, rfl⟩, rfl⟩

theorem exists_showReady (e : Engine) (b : Bool) : ∃ log, Silent log ∧
    e.showReady b = ({ e with board := { e.board with ready := b } } : Engine).tellAll log := by
  unfold Engine.showReady
  split
  · next h => exact ⟨[], ⟨rfl, rfl⟩, by simp [tellAll, ← h]⟩
  · exact ⟨[.show .ready], ⟨rfl, rfl⟩, rfl⟩

theorem flight_showElapsed (e : Engine) (d : Clock.Span) : (e.showElapsed d).flight = e.flight := by
  unfold Engine.showElapsed
  split <;> rfl

theorem state_showElapsed (e : Engine) (d : Clock.Span) : (e.showElapsed d).state = e.state := by
  unfold Engine.showElapsed
  split <;> rfl

theorem Tracks.showElapsed (h : e₀.Tracks e) (hf : e.flight = some f) (elapsed : Clock.Span) :
    e₀.Tracks (({ e with flight := some { f with elapsed } } : Engine).showElapsed elapsed) := by
  obtain ⟨log, hlog, heq⟩ := exists_showElapsed { e with flight := some { f with elapsed } } elapsed
  rw [heq]
  have hprogress : e.progress = f.progress := by simp [Engine.progress, hf]
  have hdistance : e.distance = f.distance := by simp [Engine.distance, hf]
  refine Tracks.tellAll ?_ hlog
  exact { h with
    shares := h.shares.withFlight hf rfl rfl rfl
    progress := hprogress ▸ h.progress
    elapsed := rfl
    distance := hdistance ▸ h.distance
    watch := fun y hy => by
      obtain ⟨g, hg, hsame⟩ := h.watch y hy
      obtain rfl : f = g := Option.some.inj (hf.symm.trans hg)
      exact ⟨_, rfl, hsame⟩ }

/-! ### Progress -/

theorem exists_showNavigating (e : Engine) (b : Bool) : ∃ log, Silent log ∧
    e.showNavigating b
      = ({ e with board := { e.board with navigating := b } } : Engine).tellAll log := by
  unfold Engine.showNavigating
  split
  · next h => exact ⟨[], ⟨rfl, rfl⟩, by simp [tellAll, ← h]⟩
  · exact ⟨[.show .navigating], ⟨rfl, rfl⟩, rfl⟩

theorem Tracks.showNavigating (h : e₀.Tracks e) (b : Bool) : e₀.Tracks (e.showNavigating b) := by
  obtain ⟨log, hlog, heq⟩ := exists_showNavigating e b
  rw [heq]
  refine Tracks.tellAll ?_ hlog
  exact { h with }

/-- A flight with a share that has risen, told and shown. -/
def rise (e : Engine) (f : Flight) (p d : Float) : Engine :=
  ({ e with flight := some { f with progress := p, distance := d } } : Engine).showProgress p
    |>.showDistance d |>.emit (.progressed p d)

/-- A share that is told of is told of once it is shown. -/
theorem Tracks.rise (h : e₀.Tracks e) (hf : e.flight = some f) {p d : Float}
    (hp : Rises f.commands e.settings.precision f.progress p) :
    e₀.Tracks (e.rise f p d) := by
  obtain ⟨y, log, hy, hlog, heq⟩ := exists_showProgress
    { e with flight := some { f with progress := p, distance := d } } p
  obtain ⟨z, log', hz, hlog', heq'⟩ := exists_showDistance
    (({ e with flight := some { f with progress := p, distance := d } } : Engine).showProgress p) d
  have helapsed : e.elapsed = f.elapsed := by simp [Engine.elapsed, hf]
  have hchanges : Run.changes (e.log ++ log ++ log' ++ [.event (.progressed p d)])
      = Run.changes e.log := by
    simp [Run.changes, List.filterMap_append, hlog.1, hlog'.1, Effect.state?]
  have hshares : Run.shares (e.log ++ log ++ log' ++ [.event (.progressed p d)])
      = Run.shares e.log ++ [p] := by
    simp [Run.shares, List.filterMap_append, hlog.2, hlog'.2, Effect.progress?]
  unfold Engine.rise
  rw [heq', heq]
  exact { h with
    changes := hchanges ▸ h.changes
    shares := by
      obtain ⟨q, hpath, hend⟩ := h.shares
      obtain ⟨hq, f₀, hf₀, hcommands⟩ := hend f hf
      rw [hq, hcommands, h.settings] at hp
      refine ⟨p, hshares ▸ hpath.snoc ⟨f₀, hf₀, hp⟩, fun g hg => ?_⟩
      obtain rfl := Option.some.inj hg
      exact ⟨rfl, f₀, hf₀, hcommands⟩
    progress := hy
    elapsed := h.elapsed.trans helapsed
    distance := hz
    watch := fun x hx => by
      obtain ⟨g, hg, hsame⟩ := h.watch x hx
      obtain rfl : f = g := Option.some.inj (hf.symm.trans hg)
      exact ⟨_, rfl, hsame⟩ }

theorem flight_showNavigating (e : Engine) (b : Bool) : (e.showNavigating b).flight = e.flight := by
  unfold Engine.showNavigating
  split <;> rfl

theorem flight_rise (e : Engine) (f : Flight) (p d : Float) :
    (e.rise f p d).flight = some { f with progress := p, distance := d } := by
  unfold rise Engine.showDistance Engine.showProgress
  split <;> split <;> rfl

/-- Either the share has risen, or at most the way to the first waypoint is shown anew. -/
theorem advance_cases (hf : e.flight = some f) :
    (∃ b, e.advance = e.showNavigating b) ∨
      ∃ p d, Rises f.commands (e.showNavigating false).settings.precision f.progress p ∧
        e.advance = (e.showNavigating false).rise f p d := by
  unfold Engine.advance
  rw [hf]
  dsimp only
  split
  · exact .inl ⟨true, rfl⟩
  · next latest waypoint _ =>
    split
    · exact .inl ⟨false, rfl⟩
    · next hrises => exact .inr ⟨_, _, ⟨hrises, f, _, latest, waypoint, rfl, rfl⟩, rfl⟩

theorem Tracks.advance (h : e₀.Tracks e) : e₀.Tracks e.advance := by
  cases hf : e.flight with
  | none =>
    unfold Engine.advance
    rw [hf]
    exact h
  | some f =>
    rcases advance_cases hf with ⟨b, heq⟩ | ⟨p, d, hrises, heq⟩
    · exact heq ▸ h.showNavigating b
    · exact heq ▸ (h.showNavigating false).rise ((flight_showNavigating e false).trans hf) hrises

/-- A flight that advances differs in its progress and its distance alone. -/
theorem flight_advance (hf : e.flight = some f) :
    ∃ p d, e.advance.flight = some { f with progress := p, distance := d } := by
  rcases advance_cases hf with ⟨b, heq⟩ | ⟨p, d, -, heq⟩
  · exact ⟨f.progress, f.distance, heq ▸ (flight_showNavigating e b).trans hf⟩
  · exact ⟨p, d, heq ▸ flight_rise _ f p d⟩

theorem state_showNavigating (e : Engine) (b : Bool) : (e.showNavigating b).state = e.state := by
  unfold Engine.showNavigating
  split <;> rfl

theorem state_advance (hf : e.flight = some f) : e.advance.state = e.state := by
  rcases advance_cases hf with ⟨b, heq⟩ | ⟨p, d, -, heq⟩
  · exact heq ▸ state_showNavigating e b
  · rw [heq]
    refine Eq.trans ?_ (state_showNavigating e false)
    unfold rise Engine.showDistance Engine.showProgress
    split <;> split <;> rfl

/-- A flight that advances keeps what a state carries of it. -/
theorem Agrees.advance (h : e₀.Agrees e) : e₀.Agrees e.advance := by
  cases hf : e.flight with
  | none =>
    unfold Engine.advance
    rw [hf]
    exact h
  | some f =>
    obtain ⟨p, d, hflight⟩ := flight_advance hf
    refine ⟨h.tracks.advance, ?_⟩
    have hcarries := h.carries
    rw [execution?_of_flight hf, isHomeward_of_flight hf] at hcarries
    rw [state_advance hf, facts_advance, execution?_of_flight hflight, isHomeward_of_flight hflight]
    exact hcarries

end Engine
end Sortie.Run
