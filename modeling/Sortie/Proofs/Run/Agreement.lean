import Sortie.Proofs.Run.Tracks

/-!
# What is told agrees with what is held

Each operation of the engine keeps its copies right.  A step is compared with the engine before it
(`Engine.before`): a mission that is loaded is compared with itself and not with the one before it.
So every reachable engine agrees with what it has told (`Reachable.agrees`), and so does each step
(`agrees_step`).
-/

namespace Sortie.Run

namespace Engine

variable {e₀ e : Engine} {w : Outlook} {f : Flight}

/-! ### Phases -/

theorem Tracks.start (h : e₀.Tracks e) (hf : e.flight = some f) : e₀.Agrees e.start := by
  let e₁ : Engine :=
    { e with
      settling := none
      cleanUp := none
      facts := { e.facts with connected := true }
      counting := true }
  have hstart : e.start = (e₁.advance.setWatch (.active f.record)).setState
      (.playing true f.record f.isHomeward) := by
    simp only [Engine.start, hf, e₁]
  have htracks : e₀.Tracks e₁.advance := Tracks.advance { h with }
  obtain ⟨p, d, hflight⟩ := flight_advance (e := e₁) hf
  have hexecution := execution?_of_flight hflight
  have hhomeward := isHomeward_of_flight hflight
  rw [hstart]
  refine (htracks.setWatch fun x hx => ⟨_, hflight, fun _ => ?_⟩).setState
    ⟨⟨f.record, ?_, .refl _⟩, ?_, ?_⟩
  · exact .inl (Watch.active.inj hx).symm
  · exact hexecution
  · exact (congrArg Facts.connected (facts_advance e₁)).symm
  · exact hhomeward.symm

theorem Tracks.hold (h : e₀.Tracks e) (hf : e.flight = some f) : e₀.Agrees e.hold := by
  have hflight : ({ e with counting := false, intent := .paused } : Engine).commit.flight
      = some f.commit := flight_commit hf
  have htracks : e₀.Tracks ({ e with counting := false, intent := .paused } : Engine).commit :=
    Tracks.commit { h with }
  simp only [Engine.hold, hflight]
  refine (htracks.setWatch fun x hx => by cases hx).setState ⟨⟨_, ?_, .refl _⟩, rfl, rfl⟩
  exact execution?_of_flight hflight

theorem Tracks.finish (h : e₀.Tracks e) (hf : e.flight = some f) : e₀.Agrees e.finish := by
  have hflight : ({ e with counting := false, settling := none, cleanUp := none } :
      Engine).commit.flight = some f.commit := flight_commit hf
  have htracks : e₀.Tracks ({ e with counting := false, settling := none, cleanUp := none } :
      Engine).commit := Tracks.commit { h with }
  simp only [Engine.finish, hflight]
  generalize ({ e with counting := false, settling := none, cleanUp := none } : Engine).commit = e₁
    at hflight htracks
  have hended {d : Engine} (hd : e₀.Tracks d) (hdf : d.flight = some f.commit) :
      e₀.Agrees ((d.setWatch .none).setState
        (.ended f.commit.record.cursor.reachedLast f.commit.record)) := by
    refine (hd.setWatch fun x hx => by cases hx).setState ⟨_, ?_, .refl _⟩
    exact execution?_of_flight hdf
  split
  · exact hended (htracks.tell ⟨rfl, rfl⟩) hflight
  · exact hended htracks hflight

/-- Without a mission nothing is held, and the state carries nothing that could be out of date. -/
theorem Agrees.hold (h : e₀.Agrees e) : e₀.Agrees e.hold := by
  cases hf : e.flight with
  | none =>
    cases e
    cases hf
    exact ⟨{ h.tracks with }, h.carries⟩
  | some f => exact h.tracks.hold hf

theorem Agrees.finish (h : e₀.Agrees e) : e₀.Agrees e.finish := by
  cases hf : e.flight with
  | none =>
    cases e
    cases hf
    exact ⟨{ h.tracks with }, h.carries⟩
  | some f => exact h.tracks.finish hf

theorem Agrees.start (h : e₀.Agrees e) : e₀.Agrees e.start := by
  cases hf : e.flight with
  | none =>
    simp only [Engine.start, hf]
    exact h
  | some f => exact h.tracks.start hf

/-- What is shown of an engine without a flight. -/
theorem Tracks.clear (h : e₀.Tracks e) (ha : e.watch.hasActive = false) :
    e₀.Tracks (({ e with flight := none } : Engine).showElapsed .zero |>.showProgress 0
      |>.showDistance 0) := by
  let d : Engine := { e with flight := none }
  obtain ⟨l₁, h₁, heq₁⟩ := exists_showElapsed d .zero
  obtain ⟨y, l₂, hy, h₂, heq₂⟩ := exists_showProgress (d.showElapsed .zero) 0
  obtain ⟨z, l₃, hz, h₃, heq₃⟩ := exists_showDistance ((d.showElapsed .zero).showProgress 0) 0
  have hchanges : Run.changes (e.log ++ l₁ ++ l₂ ++ l₃) = Run.changes e.log := by
    simp [Run.changes, List.filterMap_append, h₁.1, h₂.1, h₃.1]
  have hshares : Run.shares (e.log ++ l₁ ++ l₂ ++ l₃) = Run.shares e.log := by
    simp [Run.shares, List.filterMap_append, h₁.2, h₂.2, h₃.2]
  obtain ⟨p, hpath, -⟩ := h.shares
  rw [heq₃, heq₂, heq₁]
  exact { h with
    changes := hchanges ▸ h.changes
    shares := ⟨p, hshares ▸ hpath, fun _ hg => by cases hg⟩
    progress := hy
    elapsed := rfl
    distance := hz
    watch := fun x hx => by
      have hx : e.watch = .active x := hx
      rw [hx] at ha
      cases ha }

/-- Only a mission that is run is active, so the watch is not left on one that is unloaded. -/
theorem Tracks.unload (h : e₀.Tracks e)
    (ha : e.watch.hasActive = true → e.state.running?.isSome = true) : e₀.Agrees e.unload := by
  have hcleared {d : Engine} (hd : e₀.Tracks d) (hda : d.watch.hasActive = false) :
      e₀.Agrees (({ d with
        flight := none, intent := .none, counting := false, settling := none, cleanUp := none } :
          Engine).showElapsed .zero |>.showProgress 0 |>.showDistance 0 |>.showNavigating false
        |>.setState .noMission) :=
    Tracks.setState
      (((Tracks.clear (e := { d with
        intent := .none, counting := false, settling := none, cleanUp := none })
          { hd with } hda)).showNavigating false) trivial
  unfold Engine.unload
  dsimp only
  split
  · exact hcleared (h.setWatch fun x hx => by cases hx) rfl
  · next hrunning => exact hcleared h (Bool.eq_false_iff.mpr fun hn => hrunning (ha hn))

/-- An engine that tells nothing of its progress and has no flight can be compared with any
flight. -/
theorem Tracks.rebase (h : e₀.Tracks e) (hf : e.flight = none) (hs : Run.shares e.log = [])
    (f₀ : Option Flight) : ({ e₀ with flight := f₀ } : Engine).Tracks e :=
  { h with
    shares := by
      rw [hs]
      exact ⟨_, rfl, fun f hn => by cases hf.symm.trans hn⟩ }

theorem active_running (h : e.registers.Coherent) (ha : e.watch.hasActive = true) :
    e.state.running?.isSome = true := by
  rw [State.running?_isSome_iff]
  exact .inl (h.flying_of_active ((Watch.hasActive_iff _).mp ha))

/-! ### Attempts -/

theorem Agrees.activate (h : e₀.Agrees e) (w : Outlook) (item : Nat) (restart : Bool) :
    e₀.Agrees (e.activate w item restart) := by
  unfold Engine.activate
  split
  · exact h
  · dsimp only
    split
    · exact (h.tracks.order w _).fail _
    · exact h.order w _

theorem Agrees.cleanUpFirst (h : e₀.Agrees e) (w : Outlook) (missionId resource : String)
    (item : Nat) : e₀.Agrees (e.cleanUpFirst w missionId resource item) := by
  unfold Engine.cleanUpFirst
  dsimp only
  split
  · exact (h.tracks.order w _).fail _
  · exact ⟨{ h.tracks.order w _ with }, h.carries⟩

theorem Agrees.want (h : e₀.Agrees e) (intent : Intent) :
    e₀.Agrees ({ e with intent } : Engine) :=
  ⟨{ h.tracks with }, h.carries⟩

theorem Agrees.launch (h : e₀.Agrees e) (w : Outlook) : e₀.Agrees (e.launch w) := by
  unfold Engine.launch
  split
  · exact h
  · split
    · exact (h.tracks.setWatch fun x hx => by cases hx).setState trivial
    · dsimp only
      split
      · exact (h.want .playing).activate w 0 true
      · split
        · exact (h.want .playing).cleanUpFirst w _ _ _
        · exact (h.want .playing).activate w _ true

theorem Agrees.resume (h : e₀.Agrees e) (w : Outlook) : e₀.Agrees (e.resume w) := by
  unfold Engine.resume
  split
  · exact h
  · exact (h.want .playing).activate w _ false

theorem Agrees.launchOrResume (h : e₀.Agrees e) (w : Outlook) (restart : Bool) :
    e₀.Agrees (e.launchOrResume w restart) := by
  unfold Engine.launchOrResume
  split
  · exact h.launch w
  · exact h.resume w

theorem Agrees.defer (h : e₀.Agrees e) (settling : Option Settling) :
    e₀.Agrees ({ e with settling } : Engine) :=
  ⟨{ h.tracks with }, h.carries⟩

theorem Agrees.whenSettled (h : e₀.Agrees e) (w : Outlook) (restart : Bool) :
    e₀.Agrees (e.whenSettled w restart) := by
  unfold Engine.whenSettled
  split
  · exact h.launchOrResume w restart
  · exact h.defer _

theorem Agrees.poll (h : e₀.Agrees e) (w : Outlook) : e₀.Agrees (e.poll w) := by
  unfold Engine.poll
  split
  · exact h
  · split
    · exact (h.defer none).launchOrResume w _
    · split
      · exact h.tracks.fail _
      · exact h.defer _

/-! ### Wishes -/

/-- A mission that is loaded is compared with itself and not with the one before it. -/
theorem Tracks.setup (h : e₀.Tracks e) (hlog : Run.shares e.log = [])
    (ha : e.watch.hasActive = true → e.state.running?.isSome = true) (x : Execution)
    (s : Sequence) : ({ e₀ with flight := some (.load x s) } : Engine).Agrees (e.setup x s) := by
  have hflight : e.unload.flight = none := by
    rw [flight_eq_none_iff, registers_unload]
    rfl
  have hunload := (h.unload ha).tracks.rebase hflight ((shares_unload e).trans hlog)
    (some (.load x s))
  have hprogress : e.unload.progress = 0 := by simp [Engine.progress, hflight]
  have helapsed : e.unload.elapsed = .zero := by simp [Engine.elapsed, hflight]
  have hdistance : e.unload.distance = 0 := by simp [Engine.distance, hflight]
  have hshown : Same e.unload.board.progress 0 ∧ Same e.unload.board.distance 0 :=
    ⟨hprogress ▸ hunload.progress, hdistance ▸ hunload.distance⟩
  have hshares : Run.shares e.unload.log = [] := (shares_unload e).trans hlog
  unfold Engine.setup
  refine Tracks.setState ?_ ⟨⟨x, rfl, .refl x⟩, (congrArg Facts.availability (facts_unload e)).symm⟩
  exact { hunload with
    shares := by
      refine ⟨0, by rw [hshares]; rfl, fun f hf => ?_⟩
      obtain rfl := Option.some.inj hf
      exact ⟨rfl, _, rfl, rfl⟩
    progress := hshown.1
    elapsed := hunload.elapsed.trans helapsed
    distance := hshown.2
    watch := fun y hy => by
      obtain ⟨f, hf, -⟩ := hunload.watch y hy
      rw [hflight] at hf
      cases hf }

theorem Agrees.play (h : e₀.Agrees e) (w : Outlook) : e₀.Agrees (e.play w) := by
  unfold Engine.play
  split
  · exact h.tracks.setState trivial
  · split
    · exact h
    · exact h
    · split
      · exact ((h.tell ⟨rfl, rfl⟩).setWatch rfl).whenSettled w true
      · exact h.tracks.setState trivial

theorem Agrees.pause (h : e₀.Agrees e) (w : Outlook) : e₀.Agrees (e.pause w) := by
  unfold Engine.pause
  split
  · have hquiet : e₀.Agrees { e with counting := false, settling := none } :=
      ⟨{ h.tracks with }, h.carries⟩
    exact ((hquiet.setWatch rfl).want .paused).order w .deactivate
  · exact h

theorem Agrees.unpause (h : e₀.Agrees e) (w : Outlook) : e₀.Agrees (e.unpause w) := by
  unfold Engine.unpause
  split
  · split
    · split
      · exact h
      · exact (h.setWatch rfl).whenSettled w false
    · exact h.tracks.setState trivial
  · exact h

theorem Agrees.stop (h : e₀.Agrees e) (w : Outlook) (forced : Bool) :
    e₀.Agrees (e.stop w forced) := by
  have hquiet : e₀.Agrees { e with counting := false, settling := none, cleanUp := none } :=
    ⟨{ h.tracks with }, h.carries⟩
  unfold Engine.stop
  dsimp only
  split
  · exact hquiet
  · split
    · exact hquiet.order w .stop
    · exact ((hquiet.want .stopped).order w .stop).finish

theorem Agrees.catchUp (h : e₀.Agrees e) (item : Nat) (recovery : Option String)
    (elapsed : Clock.Span) : e₀.Agrees (e.catchUp item recovery elapsed) := by
  unfold Engine.catchUp
  split
  · exact h
  · next f hf =>
    have hlatest : e₀.Tracks { e with
        intent := .playing
        flight := some { f with latest := some item, recovery := recovery <|> f.recovery } } := by
      have hflight := h.tracks.withFlight hf (some item) f.floor (recovery <|> f.recovery)
      exact { hflight with }
    have hshown := hlatest.showElapsed rfl elapsed
    exact hshown.commit.start (flight_commit (flight_showElapsed _ elapsed))

theorem Agrees.update (h : e₀.Agrees e) (x : Execution) : e₀.Agrees (e.update x) := by
  unfold Engine.update
  split
  · exact h
  · next f hf =>
    split
    · have hrefresh := h.tracks.refresh hf x f.latest x.cursor.lastItem f.recovery
      have hcarries := h.carries
      rw [isHomeward_of_flight hf] at hcarries
      dsimp only
      generalize he₁ : ({ e with flight := some { f with
        record := x, floor := x.cursor.lastItem } } : Engine).refreshWatch = e₁ at hrefresh ⊢
      have hstate : e₁.state = e.state := he₁ ▸ state_refreshWatch _
      have hfacts : e₁.facts = e.facts := he₁ ▸ facts_refreshWatch _
      have hflight : e₁.flight = some { f with record := x, floor := x.cursor.lastItem } :=
        he₁ ▸ flight_refreshWatch _
      have hexecution := execution?_of_flight hflight
      have hhomeward := isHomeward_of_flight hflight
      split
      · refine hrefresh.setState ?_
        rw [hexecution, hhomeward, hfacts, hstate]
        exact carries_withExecution hcarries x
      · next hnone =>
        exact ⟨hrefresh, carries_of_none (Option.not_isSome_iff_eq_none.mp hnone) _ _ _⟩
    · exact h

theorem Agrees.setAvailability (h : e₀.Agrees e) (a : Availability) :
    e₀.Agrees (e.setAvailability a) := by
  have htracks : e₀.Tracks { e with facts := { e.facts with availability := a } } :=
    { h.tracks with }
  have hcarries := h.carries
  unfold Engine.setAvailability
  dsimp only
  split
  · next x b hs =>
    rw [hs] at hcarries
    exact htracks.setState ⟨hcarries.1, rfl⟩
  · next c x b hs =>
    rw [hs] at hcarries
    obtain ⟨⟨z, hz, hsame⟩, hc, -⟩ := hcarries
    split
    · obtain ⟨f, hf, -⟩ := Option.map_eq_some_iff.mp hz
      exact htracks.finish hf
    · exact htracks.setState ⟨⟨z, hz, hsame⟩, hc, rfl⟩
  · next hidle hpaused =>
    refine ⟨htracks, ?_⟩
    cases hs : e.state with
    | idle x b => exact absurd hs (hidle x b)
    | paused c x b => exact absurd hs (hpaused c x b)
    | noMission | failed | playing | returning | ended =>
      rw [hs] at hcarries
      exact hcarries

/-! ### Notices -/

/-- Only a mission that is played carries whether it is homeward. -/
theorem carries_of_not_playing {s : State} (hs : s.phase ≠ .playing) {x : Option Execution}
    {homeward : Bool} {facts : Facts} (h : s.Carries x homeward facts) (homeward' : Bool) :
    s.Carries x homeward' facts := by
  cases s with
  | playing => exact absurd rfl hs
  | noMission | failed | idle | returning | paused | ended => exact h

/-- A flight of the same record, while the mission is not played. -/
theorem Agrees.withFlight (h : e₀.Agrees e) (hf : e.flight = some f)
    (hp : e.state.phase ≠ .playing) (latest : Option Nat) (floor : Nat)
    (recovery : Option String) :
    e₀.Agrees { e with flight := some { f with latest, floor, recovery } } := by
  have hcarries := h.carries
  rw [execution?_of_flight hf] at hcarries
  exact ⟨h.tracks.withFlight hf latest floor recovery, carries_of_not_playing hp hcarries _⟩

/-- An item that is reached goes into the record at once while the mission is played. -/
theorem Agrees.reach (h : e₀.Agrees e) (item : Nat) : e₀.Agrees (e.reach item) := by
  unfold Engine.reach
  split
  · exact h
  · next f hf =>
    split
    · dsimp only
      split
      · next c x b hs =>
        have hs : e.state = .playing c x b := hs
        have hcarries := h.carries
        rw [hs] at hcarries
        have htold : e₀.Tracks (e.emit (.itemReached item)) := h.tracks.tell ⟨rfl, rfl⟩
        have htracks := htold.refresh hf (f.record.mark f.commands item) (some item) f.floor f.recovery
        have hflight : (({ e.emit (.itemReached item) with
            flight := some { f with
              record := f.record.mark f.commands item, latest := some item } } :
              Engine).refreshWatch).flight = some _ := flight_refreshWatch _
        refine htracks.setState ⟨⟨_, execution?_of_flight hflight, .refl _⟩, ?_, ?_⟩
        · rw [facts_refreshWatch]
          exact hcarries.2.1
        · rw [isHomeward_of_flight hflight]
          rfl
      · next hplaying =>
        have hp : e.state.phase ≠ .playing := fun hn => by
          cases hs : e.state with
          | playing c x b => exact hplaying c x b hs
          | noMission | failed | idle | returning | paused | ended => rw [hs] at hn; cases hn
        exact (h.withFlight hf hp (some item) f.floor f.recovery).tell ⟨rfl, rfl⟩
    · exact h

theorem Agrees.onReturnHome (h : e₀.Agrees e) (w : Outlook) (active : Bool)
    (reason : ReturnReason) : e₀.Agrees (e.onReturnHome w active reason) := by
  have hcarries := h.carries
  unfold Engine.onReturnHome
  split
  · split
    · next x b hs =>
      rw [hs] at hcarries
      exact h.tracks.setState hcarries.1
    · next x a hs =>
      rw [hs] at hcarries
      exact h.tracks.setState hcarries.1
    · exact h
    · exact h
    · exact h
    all_goals
      split
      · exact h
      · exact h.order w .stop
  · exact h

theorem Agrees.onConnection (h : e₀.Agrees e) (connected : Bool) :
    e₀.Agrees (e.onConnection connected) := by
  have htracks : e₀.Tracks { e with facts := { e.facts with connected } } := { h.tracks with }
  have hcarries := h.carries
  unfold Engine.onConnection
  dsimp only
  split
  · next c x b hs =>
    rw [hs] at hcarries
    split
    · next hc =>
      refine ⟨htracks, ?_⟩
      show State.Carries e.execution? e.isHomeward { e.facts with connected } e.state
      rw [hs]
      exact ⟨hcarries.1, hc, hcarries.2.2⟩
    · exact htracks.setState ⟨hcarries.1, rfl, hcarries.2.2⟩
  · next c x a hs =>
    rw [hs] at hcarries
    split
    · next hc =>
      refine ⟨htracks, ?_⟩
      show State.Carries e.execution? e.isHomeward { e.facts with connected } e.state
      rw [hs]
      exact ⟨hcarries.1, hc, hcarries.2.2⟩
    · exact htracks.setState ⟨hcarries.1, rfl, hcarries.2.2⟩
  · next hplaying hpaused =>
    refine ⟨htracks, ?_⟩
    cases hs : e.state with
    | playing c x b => exact absurd hs (hplaying c x b)
    | paused c x a => exact absurd hs (hpaused c x a)
    | noMission | failed | idle | returning | ended =>
      rw [hs] at hcarries
      exact hcarries

/-- Facts that no state carries. -/
theorem Agrees.learn (h : e₀.Agrees e) {facts : Facts} (hr : facts.report = e.facts.report)
    (hc : facts.connected = e.facts.connected) (ha : facts.availability = e.facts.availability) :
    e₀.Agrees ({ e with facts } : Engine) := by
  have hready : facts.isReady = e.facts.isReady := congrArg (Option.any Report.isReady) hr
  exact ⟨{ h.tracks with ready := h.tracks.ready.trans hready.symm },
    carries_of_facts h.carries hc ha⟩

theorem Agrees.onCamera (h : e₀.Agrees e) (w : Outlook) (camera : Camera) :
    e₀.Agrees (e.onCamera w camera) := by
  have hlearnt : e₀.Agrees { e with facts := { e.facts with camera } } := h.learn rfl rfl rfl
  unfold Engine.onCamera
  dsimp only
  split
  · exact hlearnt.poll w
  · exact hlearnt

theorem Agrees.onCleanedUp (h : e₀.Agrees e) (w : Outlook) (missionId : String)
    (result : CleanUpResult) : e₀.Agrees (e.onCleanedUp w missionId result) := by
  have hdone : e₀.Agrees { e with cleanUp := none } := ⟨{ h.tracks with }, h.carries⟩
  unfold Engine.onCleanedUp
  split
  · exact h
  · split
    · dsimp only
      split
      · split
        · exact hdone.activate w _ true
        · exact hdone.tracks.fail _
      · exact hdone
    · exact h

theorem Agrees.timeout (h : e₀.Agrees e) (w : Outlook) (missionId : String) :
    e₀.Agrees (e.timeout w missionId) := by
  unfold Engine.timeout
  split
  · have hquiet : e₀.Tracks { e with settling := none, cleanUp := none, intent := .stopped } :=
      { h.tracks with }
    exact ((hquiet.order w .stop).setWatch fun x hx => by cases hx).setState trivial
  · exact h

theorem Agrees.withRecovery (h : e₀.Agrees e) (recovery : Option String) :
    e₀.Agrees { e with flight := e.flight.map (Flight.withRecovery · recovery) } := by
  cases hf : e.flight with
  | none =>
    cases e
    cases hf
    exact h
  | some f =>
    have hcarries := h.carries
    rw [execution?_of_flight hf, isHomeward_of_flight hf] at hcarries
    exact ⟨h.tracks.withFlight hf f.latest f.floor (recovery <|> f.recovery), hcarries⟩

theorem Agrees.takeIn (h : e₀.Agrees e) (report : Option Report) : e₀.Agrees (e.takeIn report) := by
  have hshown : e₀.Agrees (({ e with facts := { e.facts with report } } : Engine).showReady
      (report.any Report.isReady)) := by
    obtain ⟨log, hlog, heq⟩ := exists_showReady
      ({ e with facts := { e.facts with report } } : Engine) (report.any Report.isReady)
    rw [heq]
    refine ⟨Tracks.tellAll ?_ hlog, carries_of_facts h.carries rfl rfl⟩
    exact { h.tracks with ready := rfl }
  unfold Engine.takeIn
  dsimp only
  split
  · exact hshown
  · next r =>
    have hrecovered := hshown.withRecovery r.recovery
    split
    · exact hrecovered.reach _
    · exact hrecovered

theorem Agrees.onIdle (h : e₀.Agrees e) (isPaused : Bool) : e₀.Agrees (e.onIdle isPaused) := by
  have hrest : e₀.Agrees (({ e with counting := false } : Engine).showNavigating false) := by
    have htracks : e₀.Tracks { e with counting := false } := { h.tracks with }
    refine ⟨htracks.showNavigating false, ?_⟩
    unfold Engine.showNavigating
    split <;> exact h.carries
  unfold Engine.onIdle
  dsimp only
  repeat' split
  all_goals first | exact hrest.hold | exact hrest.finish | exact hrest

theorem Agrees.onActive (h : e₀.Agrees e) (hc : e.registers.Coherent) (w : Outlook) :
    e₀.Agrees (e.onActive w) := by
  have hunload : e₀.Agrees (e.order w .stop).unload :=
    (h.tracks.order w .stop).unload (active_running hc)
  unfold Engine.onActive
  repeat' split
  all_goals first | exact h.start | exact h.order w _ | exact hunload | exact h

theorem Agrees.onInterface (h : e₀.Agrees e) (hc : e.registers.Coherent) (w : Outlook)
    (report : Option Report) : e₀.Agrees (e.onInterface w report) := by
  have htaken := h.takeIn report
  rw [onInterface_eq]
  split
  · refine htaken.onActive ?_ w
    rwa [registers_takeIn]
  · exact htaken.onIdle _

theorem Agrees.notice (h : e₀.Agrees e) (hc : e.registers.Coherent) (w : Outlook) (n : Notice) :
    e₀.Agrees (e.notice w n) := by
  cases n with
  | interface report => exact h.onInterface hc w report
  | returnHome active reason => exact h.onReturnHome w active reason
  | connection connected => exact h.onConnection connected
  | landed | position => exact h.learn rfl rfl rfl
  | camera camera => exact h.onCamera w camera
  | cleanedUp missionId result => exact h.onCleanedUp w missionId result

/-! ### Steps -/

theorem Agrees.tick (h : e₀.Agrees e) {e' : Engine} (ht : e.tick = .ok e') : e₀.Agrees e' := by
  unfold Engine.tick at ht
  split at ht
  · cases ht
    exact h
  · next f hf =>
    split at ht
    · cases hd : f.elapsed.add e.settings.tick with
      | error fault =>
        rw [hd] at ht
        cases ht
      | ok elapsed =>
        rw [hd] at ht
        cases ht
        refine Agrees.advance ⟨h.tracks.showElapsed hf elapsed, ?_⟩
        have hcarries := h.carries
        rw [execution?_of_flight hf, isHomeward_of_flight hf] at hcarries
        have hflight : (({ e with flight := some { f with elapsed } } : Engine).showElapsed
            elapsed).flight = some { f with elapsed } := flight_showElapsed _ elapsed
        rw [state_showElapsed, facts_showElapsed, execution?_of_flight hflight,
          isHomeward_of_flight hflight]
        exact hcarries
    · cases ht
      exact h

/-- What a step is compared with: the engine before it, and the flight that a setup loads. -/
def before (e : Engine) (i : Input) : Engine :=
  { e with flight := i.loaded? <|> e.flight }

theorem Agrees.handle (h : e₀.Agrees e) (hlog : Run.shares e.log = [])
    (hc : e.registers.Coherent) {i : Input} {e' : Engine} (hd : e.handle w i = .ok e') :
    (e₀.before i).Agrees e' := by
  cases i with
  | wish x =>
    cases hd
    cases x with
    | setup x s => exact h.tracks.setup hlog (active_running hc) x s
    | play => exact h.play w
    | pause => exact h.pause w
    | unpause => exact h.unpause w
    | stop forced => exact h.stop w forced
    | reset => exact h.tracks.unload (active_running hc)
    | catchUp item recovery elapsed => exact h.catchUp item recovery elapsed
    | update x => exact h.update x
    | setAvailability a => exact h.setAvailability a
  | notice n => cases hd; exact h.notice hc w n
  | tick => exact h.tick hd
  | poll => cases hd; exact h.poll w
  | timeout missionId => cases hd; exact h.timeout w missionId

/-- An engine that agrees is a fresh start for the next step. -/
theorem Agrees.restart (h : e₀.Agrees e) : e.Agrees { e with log := [] } := by
  refine ⟨?_, h.carries⟩
  exact { h.tracks with
    settings := rfl
    changes := rfl
    shares := .refl e }

/-- **What a step tells and shows is what the engine holds after it.** -/
theorem agrees_step (h : e₀.Agrees e) (hc : e.registers.Coherent) {i : Input} {e' : Engine}
    {log : List Effect} (hs : e.step w i = .ok (e', log)) :
    ∃ e₁, e' = { e₁ with log := [] } ∧ log = e₁.log ∧ (e.before i).Agrees e₁ := by
  obtain ⟨e₁, hd, he', hlog⟩ := handle_of_step hs
  exact ⟨e₁, he', hlog, h.restart.handle (e := { e with log := [] }) rfl hc hd⟩

/-- The settings stay as they are. -/
theorem settings_step (h : e₀.Agrees e) (hc : e.registers.Coherent) {i : Input} {e' : Engine}
    {log : List Effect} (hs : e.step w i = .ok (e', log)) : e'.settings = e.settings := by
  obtain ⟨e₁, rfl, -, ha⟩ := agrees_step h hc hs
  exact ha.tracks.settings

theorem agrees_fresh (settings : RunSettings) : ({ settings } : Engine).Agrees { settings } :=
  ⟨⟨rfl, rfl, .refl _, rfl, .refl _, rfl, .refl _, rfl,
    fun _ h => (by cases h)⟩, trivial⟩

theorem Reachable.agrees (h : e.Reachable) : ∃ e₀ : Engine, e₀.Agrees e := by
  refine Reachable.induction (P := fun e => ∃ e₀ : Engine, e₀.Agrees e) ?_ ?_ h
  · exact fun settings => ⟨_, agrees_fresh settings⟩
  · rintro e e' w i log hr ⟨e₀, h⟩ hs
    obtain ⟨e₁, rfl, -, h₁⟩ := agrees_step h hr.coherent hs
    exact ⟨_, h₁.restart⟩

/-- The record that the state carries is the one that is loaded. -/
theorem Reachable.carried (h : e.Reachable) {y : Execution} (hy : e.state.execution? = some y) :
    ∃ f, e.flight = some f ∧ Same y f.record := by
  obtain ⟨e₀, -, hcarries⟩ := h.agrees
  obtain ⟨z, hz, hsame⟩ := hcarries.same hy
  obtain ⟨f, hf, rfl⟩ := Option.map_eq_some_iff.mp hz
  exact ⟨f, hf, hsame⟩

theorem Reachable.shown_state (h : e.Reachable) : e.board.state = e.state := by
  obtain ⟨e₀, htracks, -⟩ := h.agrees
  exact htracks.state

end Engine

/-- The settings stay as they are along a sequel. -/
theorem Sequel.settings_eq {ts : List Turn} {e e' : Engine} (h : Sequel e ts e')
    (he : e.Reachable) : e'.settings = e.settings := by
  induction h with
  | here => rfl
  | turn past now ih =>
    obtain ⟨e₀, ha⟩ := (past.reachable he).agrees
    exact (Engine.settings_step ha (past.reachable he).coherent now).trans ih

/-- An engine has the settings that its history began with. -/
theorem History.settings_eq {settings : RunSettings} {ts : List Turn} {e : Engine}
    (h : History settings ts e) : e.settings = settings := by
  induction h with
  | fresh => rfl
  | turn past now ih =>
    obtain ⟨e₀, ha⟩ := past.reachable.agrees
    exact (Engine.settings_step ha past.reachable.coherent now).trans ih

end Sortie.Run
