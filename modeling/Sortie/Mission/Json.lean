import Sortie.Mission.Basic
import Sortie.Command.Item

/-!
# Missions as JSON

Each type has a shape that reads it, the value it is written as, and the way back from a value
in normal form.
-/

namespace Sortie

open Json (Shape)
open Json.Shape (required option)

namespace MissionKind

def name : MissionKind → String
  | standard => "standard"
  | imported => "imported"
  | survey => "survey"

def shape : Shape :=
  Shape.choice [("standard", none), ("imported", none), ("survey", none)]

def toJson (k : MissionKind) : Json :=
  .text k.name

def ofJson? (j : Json) : Option MissionKind :=
  j.text?.bind fun s => [standard, imported, survey].find? (·.name = s)

end MissionKind

namespace Capture

def shape : Shape :=
  Shape.tagged "mode" [
    ("video", []),
    ("time_lapse", [("period_ms", .word32)]),
    ("gps_lapse", [("distance_mm", .word32)])]

def toJson : Capture → Json
  | video => .object [("mode", .text "video")]
  | timeLapse periodMillis =>
    .object [("mode", .text "time_lapse"), ("period_ms", .ofNat periodMillis)]
  | distanceLapse millimetres =>
    .object [("mode", .text "gps_lapse"), ("distance_mm", .ofNat millimetres)]

def ofJson? (j : Json) : Option Capture :=
  match j.field? "mode" with
  | some (.text "video") => some video
  | some (.text "time_lapse") => (j.field? "period_ms").bind Json.nat? |>.map timeLapse
  | some (.text "gps_lapse") => (j.field? "distance_mm").bind Json.nat? |>.map distanceLapse
  | _ => none

end Capture

namespace CaptureSettings

def shape : Shape :=
  Shape.record [
    required "mode" Capture.shape,
    option "exposure_compensation" Shape.text,
    option "white_balance" Shape.text,
    option "video_resolution" Shape.text,
    option "photo_resolution" Shape.text,
    option "frame_rate" Shape.word32,
    required "obstacle_avoidance" Shape.bool,
    required "digital_signature" Shape.bool]

def toJson (s : CaptureSettings) : Json :=
  .object [
    ("mode", s.mode.toJson),
    ("exposure_compensation", .ofOption .text s.exposureCompensation),
    ("white_balance", .ofOption .text s.whiteBalance),
    ("video_resolution", .ofOption .text s.videoResolution),
    ("photo_resolution", .ofOption .text s.photoResolution),
    ("frame_rate", .ofOption .ofNat s.frameRate),
    ("obstacle_avoidance", .bool s.obstacleAvoidance),
    ("digital_signature", .bool s.digitalSignature)]

def ofJson? (j : Json) : Option CaptureSettings := do
  return {
    mode := ← Capture.ofJson? (← j.field? "mode")
    exposureCompensation := ← (← j.field? "exposure_compensation").optional? Json.text?
    whiteBalance := ← (← j.field? "white_balance").optional? Json.text?
    videoResolution := ← (← j.field? "video_resolution").optional? Json.text?
    photoResolution := ← (← j.field? "photo_resolution").optional? Json.text?
    frameRate := ← (← j.field? "frame_rate").optional? Json.nat?
    obstacleAvoidance := ← (← j.field? "obstacle_avoidance").bool?
    digitalSignature := ← (← j.field? "digital_signature").bool? }

end CaptureSettings

namespace ReturnEnding

def name : ReturnEnding → String
  | hovering => "hovering"
  | landing => "landing"

def ofName? (s : String) : Option ReturnEnding :=
  [hovering, landing].find? (·.name = s)

end ReturnEnding

namespace CustomReturn

def shape : Shape :=
  Shape.record [
    required "altitude" Shape.float,
    required "ending" (Shape.choice [("hovering", none), ("landing", none)]),
    required "ending_altitude" Shape.float]

def toJson (c : CustomReturn) : Json :=
  .object [
    ("altitude", .number c.altitude),
    ("ending", .text c.ending.name),
    ("ending_altitude", .number c.endingAltitude)]

def ofJson? (j : Json) : Option CustomReturn := do
  return {
    altitude := ← (← j.field? "altitude").float?
    ending := ← ReturnEnding.ofName? (← (← j.field? "ending").text?)
    endingAltitude := ← (← j.field? "ending_altitude").float? }

end CustomReturn

namespace ReturnSettings

def shape : Shape :=
  Shape.record [
    required "on_completion" Shape.bool,
    required "on_disconnection" Shape.bool,
    option "custom" CustomReturn.shape]

def toJson (s : ReturnSettings) : Json :=
  .object [
    ("on_completion", .bool s.onCompletion),
    ("on_disconnection", .bool s.onDisconnection),
    ("custom", .ofOption CustomReturn.toJson s.custom)]

def ofJson? (j : Json) : Option ReturnSettings := do
  return {
    onCompletion := ← (← j.field? "on_completion").bool?
    onDisconnection := ← (← j.field? "on_disconnection").bool?
    custom := ← (← j.field? "custom").optional? CustomReturn.ofJson? }

end ReturnSettings

namespace Action

def shape : Shape :=
  Shape.tagged "type" [
    ("take_off", []),
    ("landing", []),
    ("tilt", [("angle", .float)]),
    ("delay", [("seconds", .float)]),
    ("start_image_capture", [("interval", .float), ("count", .word32)]),
    ("stop_image_capture", []),
    ("start_video_capture", []),
    ("stop_video_capture", []),
    ("panorama", [("angle", .float), ("speed", .float)]),
    ("still_capture_mode", [("mode", .word32), ("interval", .float)])]

def toJson : Action → Json
  | takeOff => .object [("type", .text "take_off")]
  | landing => .object [("type", .text "landing")]
  | tilt angle => .object [("type", .text "tilt"), ("angle", .number angle)]
  | delay seconds => .object [("type", .text "delay"), ("seconds", .number seconds)]
  | startPhotos interval count =>
    .object [("type", .text "start_image_capture"), ("interval", .number interval),
      ("count", .ofNat count)]
  | stopPhotos => .object [("type", .text "stop_image_capture")]
  | startVideo => .object [("type", .text "start_video_capture")]
  | stopVideo => .object [("type", .text "stop_video_capture")]
  | panorama angle speed =>
    .object [("type", .text "panorama"), ("angle", .number angle), ("speed", .number speed)]
  | stillMode mode interval =>
    .object [("type", .text "still_capture_mode"), ("mode", .ofNat mode),
      ("interval", .number interval)]

def ofJson? (j : Json) : Option Action :=
  let float (name : String) : Option Float := (j.field? name).bind Json.float?
  let nat (name : String) : Option Nat := (j.field? name).bind Json.nat?
  match j.field? "type" with
  | some (.text "take_off") => some takeOff
  | some (.text "landing") => some landing
  | some (.text "tilt") => (float "angle").map tilt
  | some (.text "delay") => (float "seconds").map delay
  | some (.text "start_image_capture") => do return startPhotos (← float "interval") (← nat "count")
  | some (.text "stop_image_capture") => some stopPhotos
  | some (.text "start_video_capture") => some startVideo
  | some (.text "stop_video_capture") => some stopVideo
  | some (.text "panorama") => do return panorama (← float "angle") (← float "speed")
  | some (.text "still_capture_mode") => do return stillMode (← nat "mode") (← float "interval")
  | _ => none

end Action

namespace PointOfInterest

def shape : Shape :=
  Shape.record [required "location" Geo.Point.shape, required "altitude" Shape.float]

def toJson (p : PointOfInterest) : Json :=
  .object [("location", p.place.toJson), ("altitude", .number p.altitude)]

def ofJson? (j : Json) : Option PointOfInterest := do
  return {
    place := ← Geo.Point.ofJson? (← j.field? "location")
    altitude := ← (← j.field? "altitude").float? }

end PointOfInterest

namespace Waypoint

def shape : Shape :=
  Shape.record [
    required "location" Geo.Point.shape,
    required "altitude" Shape.float,
    required "speed" Shape.float,
    option "yaw" Shape.float,
    option "poi" Shape.word64,
    required "actions" (Shape.list Action.shape),
    required "should_continue" Shape.bool]

def toJson (w : Waypoint) : Json :=
  .object [
    ("location", w.place.toJson),
    ("altitude", .number w.altitude),
    ("speed", .number w.speed),
    ("yaw", .ofOption .number w.yaw),
    ("poi", .ofOption .ofNat w.poi),
    ("actions", .list (w.actions.map Action.toJson)),
    ("should_continue", .bool w.shouldContinue)]

def ofJson? (j : Json) : Option Waypoint := do
  return {
    place := ← Geo.Point.ofJson? (← j.field? "location")
    altitude := ← (← j.field? "altitude").float?
    speed := ← (← j.field? "speed").float?
    yaw := ← (← j.field? "yaw").optional? Json.float?
    poi := ← (← j.field? "poi").optional? Json.nat?
    actions := ← (← j.field? "actions").list? Action.ofJson?
    shouldContinue := ← (← j.field? "should_continue").bool? }

end Waypoint

namespace Cursor

def shape : Shape :=
  Shape.record [
    required "last_item_executed" Shape.word64,
    required "has_reached_first_waypoint" Shape.bool,
    required "has_reached_last_waypoint" Shape.bool,
    option "last_passed_waypoint" Shape.word64,
    required "percent_completed" Shape.float]

def toJson (c : Cursor) : Json :=
  .object [
    ("last_item_executed", .ofNat c.lastItem),
    ("has_reached_first_waypoint", .bool c.reachedFirst),
    ("has_reached_last_waypoint", .bool c.reachedLast),
    ("last_passed_waypoint", .ofOption .ofNat c.lastPassed),
    ("percent_completed", .number c.percent)]

def ofJson? (j : Json) : Option Cursor := do
  return {
    lastItem := ← (← j.field? "last_item_executed").nat?
    reachedFirst := ← (← j.field? "has_reached_first_waypoint").bool?
    reachedLast := ← (← j.field? "has_reached_last_waypoint").bool?
    lastPassed := ← (← j.field? "last_passed_waypoint").optional? Json.nat?
    percent := ← (← j.field? "percent_completed").float? }

end Cursor

namespace Mission

def shape : Shape :=
  Shape.record [
    required "id" Shape.text,
    required "name" Shape.text,
    required "kind" MissionKind.shape,
    required "version" Shape.word32,
    required "waypoints" (Shape.list Waypoint.shape),
    required "pois" (Shape.list PointOfInterest.shape),
    required "takeoff_actions" (Shape.list Action.shape),
    required "capture" CaptureSettings.shape,
    required "rth" ReturnSettings.shape,
    required "is_amsl" Shape.bool,
    option "imported_mavlink" Shape.text,
    option "estimated_distance" Shape.float,
    required "cursor" Cursor.shape]

def toJson (m : Mission) : Json :=
  .object [
    ("id", .text m.id),
    ("name", .text m.name),
    ("kind", m.kind.toJson),
    ("version", .ofNat m.version),
    ("waypoints", .list (m.waypoints.map Waypoint.toJson)),
    ("pois", .list (m.pois.map PointOfInterest.toJson)),
    ("takeoff_actions", .list (m.takeOffActions.map Action.toJson)),
    ("capture", m.capture.toJson),
    ("rth", m.rth.toJson),
    ("is_amsl", .bool m.isAbsolute),
    ("imported_mavlink", .ofOption .text m.imported),
    ("estimated_distance", .ofOption .number m.estimatedDistance),
    ("cursor", m.cursor.toJson)]

def ofJson? (j : Json) : Option Mission := do
  return {
    id := ← (← j.field? "id").text?
    name := ← (← j.field? "name").text?
    kind := ← MissionKind.ofJson? (← j.field? "kind")
    version := ← (← j.field? "version").nat?
    waypoints := ← (← j.field? "waypoints").list? Waypoint.ofJson?
    pois := ← (← j.field? "pois").list? PointOfInterest.ofJson?
    takeOffActions := ← (← j.field? "takeoff_actions").list? Action.ofJson?
    capture := ← CaptureSettings.ofJson? (← j.field? "capture")
    rth := ← ReturnSettings.ofJson? (← j.field? "rth")
    isAbsolute := ← (← j.field? "is_amsl").bool?
    imported := ← (← j.field? "imported_mavlink").optional? Json.text?
    estimatedDistance := ← (← j.field? "estimated_distance").optional? Json.float?
    cursor := ← Cursor.ofJson? (← j.field? "cursor") }

end Mission

namespace Execution

def shape : Shape :=
  Shape.record [
    required "mission" Mission.shape,
    required "execution_id" Shape.text,
    required "execution_rank" Shape.word32,
    option "recovery_resource_id" Shape.text,
    required "started_at" Shape.instant]

def toJson (e : Execution) : Json :=
  .object [
    ("mission", e.mission.toJson),
    ("execution_id", .text e.id),
    ("execution_rank", .ofNat e.rank),
    ("recovery_resource_id", .ofOption .text e.recovery),
    ("started_at", .text (String.ofList e.startedAt.text))]

def ofJson? (j : Json) : Option Execution := do
  return {
    mission := ← Mission.ofJson? (← j.field? "mission")
    id := ← (← j.field? "execution_id").text?
    rank := ← (← j.field? "execution_rank").nat?
    recovery := ← (← j.field? "recovery_resource_id").optional? Json.text?
    startedAt := ← Clock.Instant.ofText? (← (← j.field? "started_at").text?).toList }

end Execution

end Sortie
