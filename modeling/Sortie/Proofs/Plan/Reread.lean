import Sortie.Plan.Json
import Sortie.Proofs.Json.Records

/-!
# Plans as they are read back

The text of a plan is read field by field, so a plan is read as the plan with each of its numbers
read on its own (`Plan.toOption_ofBytes`).  Of all it holds only the numbers that are not whole can be
read differently, or not at all: the plan is read as it was written exactly if each of them is
(`Plan.reread_eq_self_iff`).
-/

namespace Sortie

open Json (Shape ReadsFields)
open Json.Shape (required option)

namespace Item

/-- The item that is read where this one is written. -/
def reread (i : Item) : Option Item := do
  return { i with
    params := ⟨← Json.reread i.params.a, ← Json.reread i.params.b, ← Json.reread i.params.c,
      ← Json.reread i.params.d⟩
    x := ← Json.reread i.x
    y := ← Json.reread i.y
    z := ← Json.reread i.z }

/-- The numbers of an item that need not be whole. -/
def floats (i : Item) : List Float :=
  [i.params.a, i.params.b, i.params.c, i.params.d, i.x, i.y, i.z]

theorem reread_eq_self_iff (i : Item) :
    i.reread = some i ↔ ∀ x ∈ i.floats, Json.reread x = some x := by
  obtain ⟨command, frame, ⟨a, b, c, d⟩, x, y, z, autocontinue⟩ := i
  simp only [reread, floats, Option.bind_eq_bind, Option.bind_eq_some_iff, Option.pure_def,
    Option.some.injEq, List.forall_mem_cons, List.not_mem_nil, false_implies, implies_true,
    and_true]
  constructor
  · rintro ⟨a', ha, b', hb, c', hc, d', hd, x', hx, y', hy, z', hz, heq⟩
    cases heq
    exact ⟨ha, hb, hc, hd, hx, hy, hz⟩
  · rintro ⟨ha, hb, hc, hd, hx, hy, hz⟩
    exact ⟨a, ha, b, hb, c, hc, d, hd, x, hx, y, hy, z, hz, rfl⟩

/-- The whole numbers of an item keep to their types. -/
structure Fits (i : Item) : Prop where
  command : i.command ≤ 65535
  frame : i.frame ≤ 255

theorem ofJson?_toJson (i : Item) : ofJson? i.toJson = some i := by
  rfl

theorem reads_params {levels : Nat} (p : Params) : (Shape.exactly 4 Shape.float).Reads (levels + 1)
    (.list [.number p.a, .number p.b, .number p.c, .number p.d])
    (([p.a, p.b, p.c, p.d].mapM fun x => (Json.reread x).map .number).map .list) :=
  Json.reads_exactly [p.a, p.b, p.c, p.d] fun x _ => Json.reads_float x

theorem reads_toJson {levels : Nat} {i : Item} (h : i.Fits) :
    shape.Reads (levels + 2) i.toJson (i.reread.map toJson) := by
  have hcommand := h.command
  have hframe := h.frame
  refine Json.Shape.Reads.congr (Json.reads_record
    (.cons (Json.reads_upTo hcommand (by omega)) <|
      .cons (Json.reads_upTo hframe (by omega)) <|
      .cons (reads_params i.params) <|
      .cons (Json.reads_float i.x) <|
      .cons (Json.reads_float i.y) <|
      .cons (Json.reads_float i.z) <|
      .cons (Json.reads_bool i.autocontinue) .nil)
    (by decide)) ?_
  unfold reread
  simp only [Option.map_eq_bind, Option.bind_assoc, Option.bind_some, List.mapM_cons, List.mapM_nil,
    Option.pure_def, Option.bind_eq_bind, Function.comp_apply]
  rfl

end Item

namespace CustomReturn

def reread (c : CustomReturn) : Option CustomReturn := do
  return { c with
    altitude := ← Json.reread c.altitude
    endingAltitude := ← Json.reread c.endingAltitude }

def floats (c : CustomReturn) : List Float :=
  [c.altitude, c.endingAltitude]

theorem reread_eq_self_iff (c : CustomReturn) :
    c.reread = some c ↔ ∀ x ∈ c.floats, Json.reread x = some x := by
  obtain ⟨altitude, ending, endingAltitude⟩ := c
  simp only [reread, floats, Option.bind_eq_bind, Option.bind_eq_some_iff, Option.pure_def,
    Option.some.injEq, List.forall_mem_cons, List.not_mem_nil, false_implies, implies_true,
    and_true]
  constructor
  · rintro ⟨a, ha, b, hb, heq⟩
    cases heq
    exact ⟨ha, hb⟩
  · rintro ⟨ha, hb⟩
    exact ⟨altitude, ha, endingAltitude, hb, rfl⟩

theorem ofJson?_toJson (c : CustomReturn) : ofJson? c.toJson = some c := by
  obtain ⟨altitude, ending, endingAltitude⟩ := c
  cases ending <;> rfl

theorem reads_toJson {levels : Nat} (c : CustomReturn) :
    shape.Reads (levels + 1) c.toJson (c.reread.map toJson) := by
  have hending : (Shape.choice [("hovering", none), ("landing", none)]).Reads levels
      (.text c.ending.name) (some (.text c.ending.name)) :=
    Json.reads_choice_name (by cases c.ending <;> rfl)
  refine Json.Shape.Reads.congr (Json.reads_record
    (.cons (Json.reads_float c.altitude) <|
      .cons hending <|
      .cons (Json.reads_float c.endingAltitude) .nil)
    (by decide)) ?_
  unfold reread
  simp only [Option.map_eq_bind, Option.bind_assoc, Option.bind_some, Option.pure_def,
    Option.bind_eq_bind, Function.comp_apply]
  rfl

end CustomReturn

namespace PlanSettings

def reread (s : PlanSettings) : Option PlanSettings := do
  return { s with customReturn := ← s.customReturn.mapM CustomReturn.reread }

def floats (s : PlanSettings) : List Float :=
  s.customReturn.elim [] CustomReturn.floats

theorem reread_eq_self_iff (s : PlanSettings) :
    s.reread = some s ↔ ∀ x ∈ s.floats, Json.reread x = some x := by
  obtain ⟨id, title, completion, disconnection, custom⟩ := s
  cases custom with
  | none => simp [reread, floats]
  | some c =>
    have hreread : reread ⟨id, title, completion, disconnection, some c⟩
        = c.reread.map fun c => ⟨id, title, completion, disconnection, some c⟩ := by
      unfold reread
      dsimp only [Option.mapM]
      cases c.reread <;> rfl
    rw [hreread, Option.map_eq_some_iff]
    refine Iff.trans ?_ (CustomReturn.reread_eq_self_iff c)
    constructor
    · rintro ⟨c', hc, heq⟩
      cases heq
      exact hc
    · exact fun hc => ⟨c, hc, rfl⟩

theorem ofJson?_toJson (s : PlanSettings) : ofJson? s.toJson = some s := by
  obtain ⟨id, title, completion, disconnection, custom⟩ := s
  cases custom with
  | none => rfl
  | some c =>
    show ((CustomReturn.ofJson? c.toJson).map some).bind (fun custom =>
      some (PlanSettings.mk id title completion disconnection custom)) = _
    rw [CustomReturn.ofJson?_toJson]
    rfl

theorem reads_toJson {levels : Nat} (s : PlanSettings) :
    shape.Reads (levels + 2) s.toJson (s.reread.map toJson) := by
  refine Json.Shape.Reads.congr (Json.reads_record
    (.cons (Json.reads_text s.missionId) <|
      .cons (Json.reads_text s.title) <|
      .cons (Json.reads_bool s.returnOnCompletion) <|
      .cons (Json.reads_bool s.returnOnDisconnection) <|
      .cons (Json.reads_ofOption s.customReturn (fun c _ => c.reads_toJson)
        (fun _ => Json.noConfusion) (fun _ _ => Json.noConfusion)) .nil)
    (by decide)) ?_
  unfold reread toJson
  cases s.customReturn with
  | none => rfl
  | some c =>
    dsimp only [Option.elim_some, Option.mapM]
    cases c.reread <;> rfl

end PlanSettings

namespace StartSettings

/-- The frame rate keeps to its type. -/
def Fits (s : StartSettings) : Prop :=
  ∀ rate ∈ s.frameRate, rate ≤ 4294967295

theorem ofJson?_toJson (s : StartSettings) : ofJson? s.toJson = some s := by
  obtain ⟨obstacleAvoidance, exposure, balance, video, photo, rate⟩ := s
  cases exposure <;> cases balance <;> cases video <;> cases photo <;> cases rate <;> rfl

theorem reads_text? {levels : Nat} (s? : Option String) :
    (Shape.optional Shape.text).Reads levels (.ofOption .text s?) (some (.ofOption .text s?)) := by
  cases s? with
  | none => exact Json.reads_optional_null _
  | some s => exact Json.reads_optional (Json.reads_text s) Json.noConfusion (fun _ => Json.noConfusion)

theorem reads_toJson {levels : Nat} {s : StartSettings} (h : s.Fits) :
    shape.Reads (levels + 1) s.toJson (some s.toJson) := by
  have hrate : (Shape.optional Shape.word32).Reads levels (.ofOption .ofNat s.frameRate)
      (some (.ofOption .ofNat s.frameRate)) := by
    cases hrate : s.frameRate with
    | none => exact Json.reads_optional_null _
    | some rate =>
      have hle := h rate hrate
      exact Json.reads_optional (Json.reads_upTo hle (by omega)) Json.noConfusion (fun _ => Json.noConfusion)
  exact Json.Shape.Reads.congr (Json.reads_record
    (.cons (Json.reads_bool s.obstacleAvoidance) <|
      .cons (reads_text? s.exposureCompensation) <|
      .cons (reads_text? s.whiteBalance) <|
      .cons (reads_text? s.videoResolution) <|
      .cons (reads_text? s.photoResolution) <|
      .cons hrate .nil)
    (by decide)) rfl

end StartSettings

namespace PlanHeader

theorem ofJson?_toJson (h : PlanHeader) : ofJson? h.toJson = some h := by
  obtain ⟨version, frame, digitalSignature⟩ := h
  cases frame <;> rfl

theorem reads_toJson {levels : Nat} {h : PlanHeader} (hversion : h.version ≤ 4294967295) :
    shape.Reads (levels + 1) h.toJson (some h.toJson) := by
  have hframe : Frame.shape.Reads levels h.frame.toJson (some h.frame.toJson) :=
    Json.reads_choice_name (by cases h.frame <;> rfl)
  exact Json.Shape.Reads.congr (Json.reads_record
    (.cons (Json.reads_upTo hversion (by omega)) <|
      .cons hframe <|
      .cons (Json.reads_bool h.digitalSignature) .nil)
    (by decide)) rfl

end PlanHeader

namespace PlanItem

def reread : PlanItem → Option PlanItem
  | settings s => some (settings s)
  | command i => i.reread.map command

def floats : PlanItem → List Float
  | settings _ => []
  | command i => i.floats

def Fits : PlanItem → Prop
  | settings s => s.Fits
  | command i => i.Fits

theorem reread_eq_self_iff (i : PlanItem) :
    i.reread = some i ↔ ∀ x ∈ i.floats, Json.reread x = some x := by
  cases i with
  | settings s => simp [reread, floats]
  | command i =>
    refine Iff.trans ?_ (Item.reread_eq_self_iff i)
    show i.reread.map command = some (command i) ↔ _
    rw [Option.map_eq_some_iff]
    constructor
    · rintro ⟨i', hi, heq⟩
      cases heq
      exact hi
    · exact fun hi => ⟨i, hi, rfl⟩

theorem ofJson?_toJson (i : PlanItem) : ofJson? i.toJson = some i := by
  cases i with
  | settings s =>
    show (StartSettings.ofJson? s.toJson).map settings = _
    rw [StartSettings.ofJson?_toJson]
    rfl
  | command i => rfl

theorem reads_toJson {levels : Nat} {i : PlanItem} (h : i.Fits) :
    shape.Reads (levels + 3) i.toJson (i.reread.map toJson) := by
  cases i with
  | settings s => exact Json.reads_choice_content rfl (StartSettings.reads_toJson h)
  | command i =>
    refine (Json.reads_choice_content rfl (Item.reads_toJson h)).congr ?_
    show Option.map _ (i.reread.map Item.toJson) = Option.map toJson (i.reread.map command)
    rw [Option.map_map, Option.map_map]
    rfl

end PlanItem

theorem mapM_map_some {α β γ : Type} (f : α → Option β) (g : β → γ) (as : List α) :
    (as.mapM fun a => (f a).map g) = (as.mapM f).map (List.map g) := by
  induction as with
  | nil => rfl
  | cons a as ih =>
    rw [List.mapM_cons, List.mapM_cons, ih]
    cases f a with
    | none => rfl
    | some b => cases as.mapM f <;> rfl

theorem mapM_eq_self_iff {α : Type} {f : α → Option α} {as : List α} :
    as.mapM f = some as ↔ ∀ a ∈ as, f a = some a := by
  induction as with
  | nil => simp
  | cons a as ih =>
    rw [List.mapM_cons, List.forall_mem_cons, ← ih]
    simp only [Option.bind_eq_bind, Option.bind_eq_some_iff, Option.pure_def, Option.some.injEq,
      List.cons.injEq]
    constructor
    · rintro ⟨a', ha, as', has, rfl, rfl⟩
      exact ⟨ha, has⟩
    · rintro ⟨ha, has⟩
      exact ⟨a, ha, as, has, rfl, rfl⟩

theorem toOption_eq_some_iff {ε α : Type} {x : Except ε α} {a : α} :
    x.toOption = some a ↔ x = .ok a := by
  cases x <;> simp [Except.toOption]

namespace Plan

/-- The plan that is read where this one is written, if its whole numbers keep to their types. -/
def reread (p : Plan) : Option Plan := do
  return { p with
    settings := ← p.settings.reread
    items := ← p.items.mapM PlanItem.reread }

/-- The numbers of a plan that need not be whole. -/
def floats (p : Plan) : List Float :=
  p.settings.floats ++ p.items.flatMap PlanItem.floats

/-- A plan is read as it is exactly if each of its numbers is. -/
theorem reread_eq_self_iff (p : Plan) :
    p.reread = some p ↔ ∀ x ∈ p.floats, Json.reread x = some x := by
  have hparts : p.reread = some p ↔
      p.settings.reread = some p.settings ∧ p.items.mapM PlanItem.reread = some p.items := by
    obtain ⟨header, settings, items⟩ := p
    simp only [reread, Option.bind_eq_bind, Option.bind_eq_some_iff, Option.pure_def,
      Option.some.injEq]
    constructor
    · rintro ⟨settings', hsettings, items', hitems, heq⟩
      cases heq
      exact ⟨hsettings, hitems⟩
    · rintro ⟨hsettings, hitems⟩
      exact ⟨settings, hsettings, items, hitems, rfl⟩
  rw [hparts, PlanSettings.reread_eq_self_iff, mapM_eq_self_iff]
  simp only [PlanItem.reread_eq_self_iff, floats, List.forall_mem_append, List.mem_flatMap]
  refine and_congr_right fun _ => ⟨?_, ?_⟩
  · rintro h x ⟨i, hi, hx⟩
    exact h i hi x hx
  · exact fun h i hi x hx => h x ⟨i, hi, hx⟩

/-- The whole numbers of a plan keep to their types. -/
structure Fits (p : Plan) : Prop where
  version : p.header.version ≤ 4294967295
  items : ∀ i ∈ p.items, i.Fits

theorem ofJson?_toJson (p : Plan) : ofJson? p.toJson = some p := by
  have hitems : (p.items.map PlanItem.toJson).mapM PlanItem.ofJson? = some p.items := by
    have heach : (PlanItem.ofJson? ∘ PlanItem.toJson) = fun i => pure i :=
      funext PlanItem.ofJson?_toJson
    rw [List.mapM_map, heach, List.mapM_pure, List.map_id']
    rfl
  show (PlanHeader.ofJson? p.header.toJson).bind (fun header =>
    (PlanSettings.ofJson? p.settings.toJson).bind fun settings =>
      ((p.items.map PlanItem.toJson).mapM PlanItem.ofJson?).bind fun items =>
        some (Plan.mk header settings items)) = _
  rw [PlanHeader.ofJson?_toJson, PlanSettings.ofJson?_toJson, hitems]
  rfl

theorem reads_toJson {p : Plan} (h : p.Fits) :
    shape.Reads 5 p.toJson (p.reread.map toJson) := by
  have hitems : (Shape.list PlanItem.shape).Reads 4
      (.list (p.items.map PlanItem.toJson))
      ((p.items.mapM fun i : PlanItem => i.reread.map PlanItem.toJson).map .list) :=
    Json.reads_list fun i hi => PlanItem.reads_toJson (h.items i hi)
  refine Json.Shape.Reads.congr (Json.reads_record
    (.cons (PlanHeader.reads_toJson h.version) <|
      .cons p.settings.reads_toJson <|
      .cons hitems .nil)
    (by decide)) ?_
  rw [mapM_map_some]
  unfold reread
  cases p.settings.reread with
  | none => rfl
  | some settings => cases p.items.mapM PlanItem.reread <;> rfl

/-- **What a plan is read as where it has been written.** -/
theorem toOption_ofBytes {p : Plan} (h : p.Fits) : (ofBytes p.toBytes).toOption = p.reread := by
  have hdecode : (shape.decode p.toBytes).toOption = p.reread.map toJson :=
    (reads_toJson h).decode (by decide) 0
  unfold ofBytes
  cases hj : shape.decode p.toBytes with
  | error fault =>
    rw [hj] at hdecode
    rw [Option.map_eq_none_iff.mp hdecode.symm]
    rfl
  | ok j =>
    rw [hj] at hdecode
    obtain ⟨q, hq, rfl⟩ := Option.map_eq_some_iff.mp hdecode.symm
    rw [hq]
    dsimp only [bind, Except.bind]
    rw [ofJson?_toJson]
    rfl

end Plan

end Sortie
