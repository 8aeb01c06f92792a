import Mathlib
import Sortie.Mission.Basic

/-!
# Versions that are the same

Records are compared number by number, and a number that is none equals nothing, not even itself.
`Same` also takes a record for the same as itself.  It is an equivalence as soon as the comparison
is symmetric and transitive, and a comparison by fields is so if that of each field is.
-/

namespace Sortie

/-- Equal, or taken for equal. -/
def Same {α : Type} [BEq α] (a b : α) : Prop :=
  a = b ∨ (a == b) = true

namespace Same

variable {α : Type} [BEq α] {a b c : α}

@[refl] theorem refl (a : α) : Same a a := .inl rfl

variable [PartialEquivBEq α]

theorem symm (h : Same a b) : Same b a :=
  h.imp Eq.symm BEq.symm

theorem trans (h : Same a b) (h' : Same b c) : Same a c := by
  rcases h with rfl | h
  · exact h'
  · rcases h' with rfl | h'
    · exact .inr h
    · exact .inr (BEq.trans h h')

end Same

section

variable {α β : Type} [BEq α] [BEq β]

instance partialEquivBEqOption [PartialEquivBEq α] : PartialEquivBEq (Option α) where
  symm {a b} h := by
    cases a <;> cases b <;> simp_all [BEq.comm]
  trans {a b c} h h' := by
    cases a <;> cases b <;> cases c <;> simp_all
    exact BEq.trans h h'

theorem pair_beq_pair (a c : α) (b d : β) : ((a, b) == (c, d)) = (a == c && b == d) := rfl

instance partialEquivBEqProd [PartialEquivBEq α] [PartialEquivBEq β] :
    PartialEquivBEq (α × β) where
  symm {a b} h := by
    have h := Bool.and_eq_true_iff.mp h
    exact Bool.and_eq_true_iff.mpr ⟨BEq.symm h.1, BEq.symm h.2⟩
  trans {a b c} h h' := by
    have h := Bool.and_eq_true_iff.mp h
    have h' := Bool.and_eq_true_iff.mp h'
    exact Bool.and_eq_true_iff.mpr ⟨BEq.trans h.1 h'.1, BEq.trans h.2 h'.2⟩

instance partialEquivBEqList [PartialEquivBEq α] : PartialEquivBEq (List α) where
  symm {l m} h := by
    induction l generalizing m with
    | nil => cases m <;> simp_all
    | cons a l ih => cases m <;> simp_all [BEq.comm]
  trans {l m n} h h' := by
    induction l generalizing m n with
    | nil => cases m <;> simp_all
    | cons a l ih =>
      cases m with
      | nil => cases h
      | cons b m =>
        cases n with
        | nil => cases h'
        | cons c n =>
          rw [List.cons_beq_cons, Bool.and_eq_true] at h h' ⊢
          exact ⟨BEq.trans h.1 h'.1, ih h.2 h'.2⟩

/-- What is compared by its image is compared as well as that is. -/
theorem partialEquivBEq_of_image [PartialEquivBEq β] (f : α → β)
    (h : ∀ a b, (a == b) = (f a == f b)) : PartialEquivBEq α where
  symm hab := by
    rw [h] at hab ⊢
    exact BEq.symm hab
  trans hab hbc := by
    rw [h] at hab hbc ⊢
    exact BEq.trans hab hbc

end

/-! ### Missions -/

instance : PartialEquivBEq Geo.Point :=
  partialEquivBEq_of_image (fun p => (p.latitude, p.longitude)) fun _ _ => rfl

instance : PartialEquivBEq PointOfInterest :=
  partialEquivBEq_of_image (fun p => (p.place, p.altitude)) fun _ _ => rfl

/-- What an action is, as numbers. -/
def Action.image : Action → Nat × Nat × List Float × Nat
  | takeOff => (0, 0, [], 0)
  | landing => (1, 0, [], 0)
  | tilt angle => (2, 0, [angle], 0)
  | delay seconds => (3, 0, [seconds], 0)
  | startPhotos interval count => (4, 0, [interval], count)
  | stopPhotos => (5, 0, [], 0)
  | startVideo => (6, 0, [], 0)
  | stopVideo => (7, 0, [], 0)
  | panorama angle speed => (8, 0, [angle, speed], 0)
  | stillMode mode interval => (9, mode, [interval], 0)

instance : PartialEquivBEq Action :=
  partialEquivBEq_of_image Action.image fun a b => by
    cases a <;> cases b <;> first | rfl | (symm; simp [Action.image, pair_beq_pair]; rfl)

instance : PartialEquivBEq Waypoint :=
  partialEquivBEq_of_image
    (fun w => (w.place, w.altitude, w.speed, w.yaw, w.poi, w.actions, w.shouldContinue))
    fun _ _ => rfl

instance : PartialEquivBEq CaptureSettings :=
  partialEquivBEq_of_image
    (fun c => (c.mode, c.exposureCompensation, c.whiteBalance, c.videoResolution,
      c.photoResolution, c.frameRate, c.obstacleAvoidance, c.digitalSignature))
    fun _ _ => rfl

instance : PartialEquivBEq CustomReturn :=
  partialEquivBEq_of_image (fun c => (c.altitude, c.ending, c.endingAltitude)) fun _ _ => rfl

instance : PartialEquivBEq ReturnSettings :=
  partialEquivBEq_of_image (fun r => (r.onCompletion, r.onDisconnection, r.custom)) fun _ _ => rfl

instance : PartialEquivBEq Cursor :=
  partialEquivBEq_of_image
    (fun c => (c.lastItem, c.reachedFirst, c.reachedLast, c.lastPassed, c.percent)) fun _ _ => rfl

instance : PartialEquivBEq Mission :=
  partialEquivBEq_of_image
    (fun m => (m.id, m.name, m.kind, m.version, m.waypoints, m.pois, m.takeOffActions, m.capture,
      m.rth, m.isAbsolute, m.imported, m.estimatedDistance, m.cursor))
    fun _ _ => rfl

instance : PartialEquivBEq Execution :=
  partialEquivBEq_of_image (fun e => (e.mission, e.id, e.rank, e.recovery, e.startedAt))
    fun _ _ => rfl

end Sortie
