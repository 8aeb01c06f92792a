import Sortie.Proofs.Command.Items
import Sortie.Proofs.Json.Fractions
import Sortie.Proofs.Plan.Reread

/-!
# Plans that are read as they were written

Texts, whole numbers and everything else of a plan is had back from its bytes, in its order, so only
the numbers that need not be whole decide whether the plan is (`Plan.ofBytes_toBytes_iff`).  Short
ones are read as they are.  A finite number with many digits may be read as its neighbour, and then
the plan that is read is another one.

The counts and modes of a command are numbers in its item, but short ones, so of a plan that is made
from commands only their own measures count (`Plan.rereads_ofMission_iff`).
-/

namespace Sortie

namespace Command

/-- The measures of a command, in the order of its item. -/
def floats : Command → List Float
  | .waypoint place altitude yaw hold _ => [hold, yaw, place.latitude, place.longitude, altitude]
  | .lookAt place altitude _ => [place.latitude, place.longitude, altitude]
  | .delay x | .speed x | .tilt x | .triggerDistance x _ | .triggerInterval x | .startPhotos x _
  | .stillMode _ x => [x]
  | .panorama horizontalAngle horizontalSpeed verticalAngle verticalSpeed =>
    [horizontalAngle, verticalAngle, horizontalSpeed, verticalSpeed]
  | _ => []

/-- The other numbers of an item are read as they are written. -/
theorem rereads_toItem_iff {c : Command} (h : c.Fits) :
    (∀ x ∈ c.toItem.floats, Json.reread x = some x) ↔ ∀ x ∈ c.floats, Json.reread x = some x := by
  have hzero : Json.reread 0 = some 0 := by decide +kernel
  have hone : Json.reread 1 = some 1 := by decide +kernel
  have htwo : Json.reread 2 = some 2 := by decide +kernel
  have hminus : Json.reread (-1) = some (-1) := by decide +kernel
  have hcount {n : Nat} (hn : n ≤ 4294967295) :
      Json.reread (Decimal.ofNat n) = some (Decimal.ofNat n) :=
    Json.reread_ofNat (by omega)
  cases c with
  | view mode =>
    cases mode with
    | target index =>
      simp [toItem, Item.floats, Item.plain, floats, ViewMode.params, hzero, htwo, hcount h]
    | _ => simp [toItem, Item.floats, Item.plain, floats, ViewMode.params, hzero, hone]
  | startPhotos interval count | stillMode mode interval =>
    simp [toItem, Item.floats, Item.plain, floats, hzero, hcount h]
  | triggerDistance metres once =>
    cases once <;> simp [toItem, Item.floats, Item.plain, floats, hzero, hone]
  | _ => simp [toItem, Item.floats, Item.plain, Item.placed, floats, hzero, hone, htwo, hminus]

end Command

namespace Plan

theorem ofBytes_toBytes_eq_ok_iff {p : Plan} (h : p.Fits) :
    ofBytes p.toBytes = .ok p ↔ ∀ x ∈ p.floats, Json.reread x = some x := by
  rw [← toOption_eq_some_iff, toOption_ofBytes h, reread_eq_self_iff]

/-- **A plan is read as it was written exactly if each of its numbers is**, and short numbers are. -/
theorem ofBytes_toBytes_iff {p : Plan} (h : p.Fits) :
    (ofBytes p.toBytes = .ok p ↔ ∀ x ∈ p.floats, Json.reread x = some x) ∧
      ((∀ x ∈ p.floats, Json.isShort x = true) → ofBytes p.toBytes = .ok p) := by
  have hiff := ofBytes_toBytes_eq_ok_iff h
  exact ⟨hiff, fun hshort => hiff.mpr fun x hx => Json.reread_of_isShort (hshort x hx)⟩

/-- Of a plan made from commands only their measures and those of the return count. -/
theorem rereads_ofMission_iff (m : Mission) {s : Sequence} (hs : s.Fits) :
    (∀ x ∈ (ofMission m s).floats, Json.reread x = some x) ↔
      (∀ r ∈ m.rth.custom, ∀ x ∈ r.floats, Json.reread x = some x) ∧
        ∀ c ∈ s, ∀ x ∈ c.floats, Json.reread x = some x := by
  have hitems : (ofMission m s).items.flatMap PlanItem.floats = s.flatMap (·.toItem.floats) := by
    show (s.toItems.map PlanItem.command).flatMap PlanItem.floats = _
    rw [List.flatMap_map, Sequence.toItems, List.flatMap_map]
    rfl
  have hsettings : (∀ x ∈ (ofMission m s).settings.floats, Json.reread x = some x) ↔
      ∀ r ∈ m.rth.custom, ∀ x ∈ r.floats, Json.reread x = some x := by
    show (∀ x ∈ m.rth.custom.elim [] CustomReturn.floats, _) ↔ _
    cases m.rth.custom <;> simp
  rw [floats, List.forall_mem_append, hsettings, hitems, List.forall_mem_flatMap]
  refine and_congr_right fun _ => forall₂_congr fun c hc => ?_
  exact Command.rereads_toItem_iff (hs c hc)

/-- A plan with one waypoint at this altitude. -/
def climb (altitude : Float) : Plan where
  header := { version := 1, frame := .relative, digitalSignature := false }
  settings :=
    { missionId := "climb", title := "Climb \"one\"\n", returnOnCompletion := true
      returnOnDisconnection := false, customReturn := some ⟨20, .hovering, 0.5⟩ }
  items :=
    [.settings ⟨true, some "-0.7", none, none, none, some 30⟩,
      .command (Command.waypoint ⟨48.5, 2.25⟩ altitude 0 0 .relative).toItem]

theorem fits_climb (altitude : Float) : (climb altitude).Fits := by
  refine ⟨by simp [climb], fun i hi => ?_⟩
  simp only [climb, List.mem_cons, List.not_mem_nil, or_false] at hi
  rcases hi with rfl | rfl
  · show StartSettings.Fits _
    simp [StartSettings.Fits]
  · exact Item.Fits.mk (by decide : 16 ≤ 65535) (by decide : 3 ≤ 255)

theorem mem_floats_climb (altitude : Float) : altitude ∈ (climb altitude).floats := by
  have hfloats : (climb altitude).floats = [20, 0.5, 0, 0, 0, 0, 48.5, 2.25, altitude] := rfl
  simp [hfloats]

theorem ofBytes_toBytes_climb : (∀ x ∈ (climb 30.25).floats, Json.isShort x = true) ∧
    ofBytes (climb 30.25).toBytes = .ok (climb 30.25) := by
  have hshort : ∀ x ∈ (climb 30.25).floats, Json.isShort x = true := by decide +kernel
  exact ⟨hshort, (ofBytes_toBytes_iff (fits_climb 30.25)).2 hshort⟩

/-- An altitude of `8.5 + 12 * 0.1` is read as `9.7`. -/
theorem not_forall_ofBytes_toBytes :
    ¬ ∀ p : Plan, p.Fits → (∀ x ∈ p.floats, x.isFinite = true) → ofBytes p.toBytes = .ok p := by
  intro hall
  have hfinite : ∀ x ∈ (climb 9.700000000000001).floats, x.isFinite = true := by decide +kernel
  have hsame := (ofBytes_toBytes_eq_ok_iff (fits_climb _)).mp
    (hall (climb 9.700000000000001) (fits_climb _) hfinite) _ (mem_floats_climb _)
  have hlost : Json.reread 9.700000000000001 = some 9.7 := by decide +kernel
  rw [hlost] at hsame
  exact absurd (Option.some.inj hsame) (by decide +kernel)

end Plan

end Sortie
