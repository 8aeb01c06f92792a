import Sortie.Plan.Basic
import Sortie.Mission.Json

/-!
# Plans as JSON

The text of a plan has its fields in a fixed order, so the same plan is always the same text.
-/

namespace Sortie

open Json (Shape)
open Json.Shape (required option)

namespace PlanHeader

def shape : Shape :=
  Shape.record [
    required "version" Shape.word32,
    required "frame" Frame.shape,
    required "digital_signature" Shape.bool]

def toJson (h : PlanHeader) : Json :=
  .object [
    ("version", .ofNat h.version),
    ("frame", h.frame.toJson),
    ("digital_signature", .bool h.digitalSignature)]

def ofJson? (j : Json) : Option PlanHeader := do
  return {
    version := ← (← j.field? "version").nat?
    frame := ← Frame.ofJson? (← j.field? "frame")
    digitalSignature := ← (← j.field? "digital_signature").bool? }

end PlanHeader

namespace PlanSettings

def shape : Shape :=
  Shape.record [
    required "mission_id" Shape.text,
    required "title" Shape.text,
    required "rth_on_completion" Shape.bool,
    required "rth_on_disconnection" Shape.bool,
    option "custom_rth" CustomReturn.shape]

def toJson (s : PlanSettings) : Json :=
  .object [
    ("mission_id", .text s.missionId),
    ("title", .text s.title),
    ("rth_on_completion", .bool s.returnOnCompletion),
    ("rth_on_disconnection", .bool s.returnOnDisconnection),
    ("custom_rth", .ofOption CustomReturn.toJson s.customReturn)]

def ofJson? (j : Json) : Option PlanSettings := do
  return {
    missionId := ← (← j.field? "mission_id").text?
    title := ← (← j.field? "title").text?
    returnOnCompletion := ← (← j.field? "rth_on_completion").bool?
    returnOnDisconnection := ← (← j.field? "rth_on_disconnection").bool?
    customReturn := ← (← j.field? "custom_rth").optional? CustomReturn.ofJson? }

end PlanSettings

namespace StartSettings

def shape : Shape :=
  Shape.record [
    required "obstacle_avoidance" Shape.bool,
    option "exposure_compensation" Shape.text,
    option "white_balance" Shape.text,
    option "video_resolution" Shape.text,
    option "photo_resolution" Shape.text,
    option "frame_rate" Shape.word32]

def toJson (s : StartSettings) : Json :=
  .object [
    ("obstacle_avoidance", .bool s.obstacleAvoidance),
    ("exposure_compensation", .ofOption .text s.exposureCompensation),
    ("white_balance", .ofOption .text s.whiteBalance),
    ("video_resolution", .ofOption .text s.videoResolution),
    ("photo_resolution", .ofOption .text s.photoResolution),
    ("frame_rate", .ofOption .ofNat s.frameRate)]

def ofJson? (j : Json) : Option StartSettings := do
  return {
    obstacleAvoidance := ← (← j.field? "obstacle_avoidance").bool?
    exposureCompensation := ← (← j.field? "exposure_compensation").optional? Json.text?
    whiteBalance := ← (← j.field? "white_balance").optional? Json.text?
    videoResolution := ← (← j.field? "video_resolution").optional? Json.text?
    photoResolution := ← (← j.field? "photo_resolution").optional? Json.text?
    frameRate := ← (← j.field? "frame_rate").optional? Json.nat? }

end StartSettings

namespace PlanItem

def shape : Shape :=
  Shape.choice [("config", some StartSettings.shape), ("command", some Item.shape)]

def toJson : PlanItem → Json
  | settings s => .object [("config", s.toJson)]
  | command i => .object [("command", i.toJson)]

def ofJson? (j : Json) : Option PlanItem :=
  match j.field? "config", j.field? "command" with
  | some s, _ => (StartSettings.ofJson? s).map settings
  | none, some i => (Item.ofJson? i).map command
  | none, none => none

end PlanItem

namespace Plan

def shape : Shape :=
  Shape.record [
    required "header" PlanHeader.shape,
    required "static_config" PlanSettings.shape,
    required "items" (Shape.list PlanItem.shape)]

def toJson (p : Plan) : Json :=
  .object [
    ("header", p.header.toJson),
    ("static_config", p.settings.toJson),
    ("items", .list (p.items.map PlanItem.toJson))]

def ofJson? (j : Json) : Option Plan := do
  return {
    header := ← PlanHeader.ofJson? (← j.field? "header")
    settings := ← PlanSettings.ofJson? (← j.field? "static_config")
    items := ← (← j.field? "items").list? PlanItem.ofJson? }

/-- The text of a plan, one line for each field and item. -/
def text (p : Plan) : List Char :=
  p.toJson.pretty 0

def toBytes (p : Plan) : Text.Bytes :=
  Text.encode p.text

def ofBytes (bytes : Text.Bytes) : Except Json.Fault Plan := do
  match ofJson? (← Shape.decode shape bytes) with
  | some p => return p
  | none => throw .mismatched

end Plan

end Sortie
