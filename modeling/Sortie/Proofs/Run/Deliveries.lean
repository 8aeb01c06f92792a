import Sortie.Proofs.Run.History
import Sortie.Proofs.Run.Orders
import Sortie.Run.Simulator

/-!
# Engine and aircraft come to rest

A notice makes the engine give orders, and an aircraft that answers sends notices for those.  So the
notices on their way can become more while they are delivered.  `Notice.load` bounds how many
deliveries a notice may come to, its own included, and `Order.load` does so for what an order is
answered with.  The orders of a notice together have a smaller load than the notice
(`Engine.load_orders_lt`): a camera that has settled may have old media deleted, and with them
deleted the mission is activated, and an activation may be taken back, but that is where it ends.

Each delivery therefore lowers the load of what is on its way (`Rig.exists_give`), and after a number
of deliveries nothing is (`Rig.comes_to_rest`).
-/

namespace Sortie.Run

/-- How many deliveries a notice may come to. -/
def Notice.load : Notice → Nat
  | .camera _ => 5
  | .cleanedUp .. => 4
  | .interface report => if report.any (·.state = .active) then 2 else 1
  | .returnHome .. => 2
  | .connection _ | .landed _ | .position _ => 1

/-- How many deliveries the answer to an order may come to. -/
def Order.load : Order → Nat
  | .prepare => 0
  | .activate _ => 3
  | .deactivate | .stop => 1
  | .cleanUp .. => 4

def Notice.loads : List Notice → Nat
  | [] => 0
  | n :: ns => n.load + loads ns

def Order.loads : List Order → Nat
  | [] => 0
  | o :: os => o.load + loads os

theorem Notice.load_le (n : Notice) : n.load ≤ 5 := by
  cases n with
  | interface report =>
    by_cases h : report.any (·.state = .active) = true <;> simp [load, h]
  | camera | cleanedUp | returnHome | connection | landed | position => simp [load]

theorem Notice.loads_append (ns ms : List Notice) : loads (ns ++ ms) = loads ns + loads ms := by
  induction ns with
  | nil => exact (Nat.zero_add _).symm
  | cons n ns ih =>
    show n.load + loads (ns ++ ms) = n.load + loads ns + loads ms
    rw [ih, Nat.add_assoc]

theorem Notice.loads_le (ns : List Notice) : loads ns ≤ 5 * ns.length := by
  induction ns with
  | nil => exact Nat.le_refl 0
  | cons n ns ih =>
    have hn := n.load_le
    have hcons : loads (n :: ns) = n.load + loads ns := rfl
    rw [hcons, List.length_cons]
    omega

/-! ### What the aircraft answers -/

namespace Simulator

theorem loads_reply (s : Simulator) (o : Order) : Notice.loads (s.reply o) = o.load := by
  cases o <;> rfl

theorem waiting_send (s : Simulator) (ns : List Notice) :
    (s.send ns).waiting = s.waiting ∨ (s.send ns).waiting = s.waiting ++ ns := by
  unfold send
  by_cases h : s.answers = true
  · exact .inr (by rw [if_pos h])
  · exact .inl (by rw [if_neg h])

/-- An order brings no more than its answer. -/
theorem loads_receive (s : Simulator) (o : Order) (refusal : Option String) :
    Notice.loads (s.receive o refusal).waiting ≤ Notice.loads s.waiting + o.load := by
  unfold receive
  generalize hd : (if arrives o refusal then { s with received := s.received ++ [o] } else s) = d
  have hwaiting : d.waiting = s.waiting := by
    rw [← hd]
    split <;> rfl
  dsimp only
  split
  · rcases d.waiting_send (d.reply o) with h | h
    · rw [h, hwaiting]
      exact Nat.le_add_right _ _
    · refine Nat.le_of_eq ?_
      rw [h, hwaiting, Notice.loads_append, d.loads_reply]
  · rw [hwaiting]
    exact Nat.le_add_right _ _

theorem loads_receiveAll (s : Simulator) (os : List (Order × Option String)) :
    Notice.loads (os.foldl (fun s o => s.receive o.1 o.2) s).waiting
      ≤ Notice.loads s.waiting + Order.loads (os.map Prod.fst) := by
  induction os generalizing s with
  | nil => exact Nat.le_refl _
  | cons o os ih =>
    have hfirst := s.loads_receive o.1 o.2
    have hrest := ih (s.receive o.1 o.2)
    have hcons : Order.loads ((o :: os).map Prod.fst) = o.1.load + Order.loads (os.map Prod.fst) := rfl
    rw [List.foldl_cons, hcons]
    omega

end Simulator

/-! ### What the engine orders -/

namespace Engine

variable {e : Engine} {w : Outlook}

theorem load_attempt? {c : Cause} {o : Order} (h : e.attempt? w c = some o) : o.load ≤ 4 := by
  cases c with
  | launch =>
    have h : e.launchOrder? w = some o := h
    obtain ⟨f, -, h⟩ := Option.bind_eq_some_iff.mp h
    split at h
    · cases h
    · split at h
      · cases h
        simp [Order.load]
      · split at h <;> cases h <;> simp [Order.load]
  | resume | cleanedUp =>
    obtain ⟨f, -, rfl⟩ := Option.map_eq_some_iff.mp h
    simp [Order.load]

theorem loads_attempt? (c : Option Cause) :
    Order.loads (c.bind (e.attempt? w)).toList ≤ 4 := by
  cases h : c.bind (e.attempt? w) with
  | none => exact Nat.zero_le 4
  | some o =>
    obtain ⟨c, -, ho⟩ := Option.bind_eq_some_iff.mp h
    simpa [Order.loads] using load_attempt? ho

/-- With old media deleted the mission is activated, or nothing is ordered. -/
theorem loads_cleanedUp (missionId : String) (result : CleanUpResult) :
    Order.loads (e.orders w (.notice (.cleanedUp missionId result))) ≤ 3 := by
  cases result with
  | canceled => exact Nat.zero_le 3
  | done =>
    show Order.loads ((e.cause? (.notice (.cleanedUp missionId .done))).bind (e.attempt? w)).toList ≤ 3
    cases h : (e.cause? (.notice (.cleanedUp missionId .done))).bind (e.attempt? w) with
    | none => exact Nat.zero_le 3
    | some o =>
      obtain ⟨c, hc, ho⟩ := Option.bind_eq_some_iff.mp h
      rw [cause?_cleanedUp] at hc
      split at hc
      · obtain ⟨p, -, rfl⟩ := Option.map_eq_some_iff.mp hc
        obtain ⟨f, -, rfl⟩ := Option.map_eq_some_iff.mp ho
        exact Nat.le_refl 3
      · cases hc

theorem loads_correction (e : Engine) : Order.loads e.correction ≤ 1 := by
  unfold correction
  split <;> simp [Order.loads, Order.load]

/-- **What a notice makes the engine order is answered with less than the notice.** -/
theorem load_orders_lt (e : Engine) (w : Outlook) (n : Notice) :
    Order.loads (e.orders w (.notice n)) < n.load := by
  cases n with
  | interface report =>
    rw [orders_interface]
    by_cases h : report.any (·.state = .active) = true
    · have hcorrection := e.loads_correction
      simp only [h, if_true, Notice.load]
      omega
    · simp [h, Notice.load, Order.loads]
  | returnHome active reason =>
    rw [orders_returnHome]
    split <;> simp [Notice.load, Order.loads, Order.load]
  | camera camera =>
    have hattempt := loads_attempt? (e := e) (w := w) (e.cause? (.notice (.camera camera)))
    exact Nat.lt_succ_of_le hattempt
  | cleanedUp missionId result => exact Nat.lt_succ_of_le (loads_cleanedUp missionId result)
  | connection | landed | position => exact Nat.zero_lt_one

theorem exists_step_notice (e : Engine) (w : Outlook) (n : Notice) :
    ∃ e' log, e.step w (.notice n) = .ok (e', log) :=
  ⟨_, _, step_of_handle rfl⟩

end Engine

/-! ### Deliveries -/

namespace Rig

/-- A notice always goes through, and what it brings weighs less than the notice. -/
theorem exists_give (r : Rig) (n : Notice) :
    ∃ r' log, r.give (.notice n) = .ok (r', log) ∧
      Notice.loads r'.aircraft.waiting < Notice.loads r.aircraft.waiting + n.load := by
  obtain ⟨e, log, hs⟩ := r.engine.exists_step_notice r.outlook n
  refine ⟨_, log, by unfold give; rw [hs]; rfl, ?_⟩
  have hbrought := r.aircraft.loads_receiveAll (log.filterMap Effect.order?)
  have hsent : (log.filterMap Effect.order?).map Prod.fst = r.engine.orders r.outlook (.notice n) :=
    Engine.sent_step hs
  have hlt := r.engine.load_orders_lt r.outlook n
  rw [hsent] at hbrought
  exact Nat.lt_of_le_of_lt hbrought (Nat.add_lt_add_left hlt _)

/-- The first delivery, and those that follow. -/
theorem deliver_succ {r r₁ : Rig} {n : Notice} {waiting : List Notice} {log : List Effect}
    (hw : r.aircraft.waiting = n :: waiting)
    (hg : ({ r with aircraft := { r.aircraft with waiting } } : Rig).give (.notice n)
      = .ok (r₁, log)) {limit : Nat} {r' : Rig} {more : List Effect}
    (hd : r₁.deliver limit = .ok (r', more)) :
    r.deliver (limit + 1) = .ok (r', log ++ more) := by
  unfold deliver
  rw [hw]
  dsimp only
  rw [hg]
  show (r₁.deliver limit >>= fun x => pure (x.1, log ++ x.2)) = _
  rw [hd]
  rfl

/-- After so many deliveries, and not before, nothing is on its way any more. -/
def RestsAfter (r : Rig) (k : Nat) : Prop :=
  (∃ r' log, r'.aircraft.waiting = [] ∧ ∀ limit, k ≤ limit → r.deliver limit = .ok (r', log)) ∧
    ∀ j < k, ∃ r' log, r.deliver j = .ok (r', log) ∧ r'.aircraft.waiting ≠ []

theorem restsAfter_zero {r : Rig} (hw : r.aircraft.waiting = []) : r.RestsAfter 0 := by
  refine ⟨⟨r, [], hw, fun limit _ => ?_⟩, fun j hj => absurd hj (Nat.not_lt_zero j)⟩
  cases limit with
  | zero => rfl
  | succ limit =>
    unfold deliver
    rw [hw]
    rfl

theorem RestsAfter.succ {r r₁ : Rig} {n : Notice} {waiting : List Notice} {log : List Effect}
    {k : Nat} (hw : r.aircraft.waiting = n :: waiting)
    (hg : ({ r with aircraft := { r.aircraft with waiting } } : Rig).give (.notice n)
      = .ok (r₁, log)) (h : r₁.RestsAfter k) : r.RestsAfter (k + 1) := by
  obtain ⟨⟨r', more, hrest, hlast⟩, hbefore⟩ := h
  refine ⟨⟨r', log ++ more, hrest, fun limit hk => ?_⟩, fun j hj => ?_⟩
  · obtain ⟨limit, rfl⟩ := Nat.exists_eq_add_of_le' (Nat.le_of_add_left_le hk)
    exact deliver_succ hw hg (hlast limit (Nat.le_of_succ_le_succ hk))
  · cases j with
    | zero => exact ⟨r, [], rfl, by simp [hw]⟩
    | succ j =>
      obtain ⟨r₂, log₂, hd, hne⟩ := hbefore j (Nat.lt_of_succ_lt_succ hj)
      exact ⟨r₂, _, deliver_succ hw hg hd, hne⟩

/-- **Engine and aircraft do not answer each other for ever.**  Whatever the engine is in the middle
of and whatever is on its way, there is a number of deliveries after which nothing is, and it is at
most five for each notice that was on its way at first. -/
theorem comes_to_rest (r : Rig) : ∃ k ≤ 5 * r.aircraft.waiting.length, r.RestsAfter k := by
  suffices h : ∃ k ≤ Notice.loads r.aircraft.waiting, r.RestsAfter k by
    obtain ⟨k, hk, hrest⟩ := h
    exact ⟨k, Nat.le_trans hk (Notice.loads_le _), hrest⟩
  -- By induction on the load of what is on its way, which each delivery lowers.
  generalize hload : Notice.loads r.aircraft.waiting = load
  induction load using Nat.strongRecOn generalizing r with
  | ind load ih =>
    cases hw : r.aircraft.waiting with
    | nil => exact ⟨0, Nat.zero_le _, restsAfter_zero hw⟩
    | cons n waiting =>
      obtain ⟨r₁, log, hg, hlt⟩ :=
        ({ r with aircraft := { r.aircraft with waiting } } : Rig).exists_give n
      have hcons : load = n.load + Notice.loads waiting := by rw [← hload, hw]; rfl
      have hless : Notice.loads r₁.aircraft.waiting < load := by
        have hlt : Notice.loads r₁.aircraft.waiting < Notice.loads waiting + n.load := hlt
        omega
      obtain ⟨k, hk, hrest⟩ := ih _ hless r₁ rfl
      exact ⟨k + 1, by omega, hrest.succ hw hg⟩

/-- A mission that was broken off is played while the camera is busy, and then the camera settles. -/
def settling : Rig where
  engine := (trial {} (smoothly [reportIdle, .wish (.setup
    { sample with
      mission := { sample.mission with cursor := { lastItem := 3 } }
      recovery := some "photo 3" } []), .wish .play])).2
  aircraft := { answers := true, waiting := [.camera .ready] }

-- The camera, the media deleted, the take-off, and the mission taken up.
example : ([3, 4].map fun limit => (settling.deliver limit).toOption.map
    fun r => r.1.aircraft.waiting.length) = [some 1, some 0] := by decide

end Rig

end Sortie.Run
