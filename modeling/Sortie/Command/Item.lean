import Sortie.Command.Basic
import Sortie.Decimal.Layout
import Sortie.Json.Shape

/-!
# Mission items

An item is a command as numbers: its own, that of its frame, four parameters and a place. Every
command has one item and is what that item reads as.
-/

namespace Sortie

structure Params where
  a : Float
  b : Float
  c : Float
  d : Float
  deriving BEq, DecidableEq, Repr, Inhabited

structure Item where
  command : Nat
  frame : Nat
  params : Params
  x : Float
  y : Float
  z : Float
  autocontinue : Bool
  deriving BEq, DecidableEq, Repr, Inhabited

/-- Why commands cannot be read from items or from the lines of a text. -/
inductive CommandFault where
  | missingHeader
  | fieldCount (line found : Nat)
  | badField (line : Nat) (text : List Char) (index : Nat)
  | unsupportedCommand (command : Nat)
  | unsupportedFrame (command frame : Nat)
  | unknownView (mode : Int)
  deriving DecidableEq, Repr

def CommandFault.message : CommandFault → String
  | .missingHeader => "Missing 'QGC WPL' header"
  | .fieldCount line found =>
    "Line " ++ toString line ++ ": expected 12 fields, found " ++ toString found
  | .badField line text index =>
    "Line " ++ toString line ++ ": invalid value '" ++ String.ofList text ++ "' in field "
      ++ toString index
  | .unsupportedCommand command => "Unsupported MAVLink command " ++ toString command
  | .unsupportedFrame command frame =>
    "Command " ++ toString command ++ " uses unsupported frame " ++ toString frame
  | .unknownView mode => "Command 50000: unknown view mode " ++ toString mode

/-- A parameter read as a count of 32 bits. -/
def toCount (x : Float) : Nat :=
  Decimal.toNatUpTo 4294967295 x

namespace Frame

/-- The number of the frame of commands without a place. -/
def ofMission : Nat := 2

def id : Frame → Nat
  | .relative => 3
  | .absolute => 0

def ofId (command : Nat) : Nat → Except CommandFault Frame
  | 3 => .ok .relative
  | 0 => .ok .absolute
  | frame => .error (.unsupportedFrame command frame)

end Frame

namespace ViewMode

def params : ViewMode → Params
  | .absolute => ⟨0, 0, 0, 0⟩
  | .ahead => ⟨1, 0, 0, 0⟩
  | .target index => ⟨2, Decimal.ofNat index, 0, 0⟩

def ofParams (p : Params) : Except CommandFault ViewMode :=
  match Decimal.toIntWithin (-9223372036854775808) 9223372036854775807 p.a with
  | 0 => .ok .absolute
  | 1 => .ok .ahead
  | 2 => .ok (.target (toCount p.b))
  | mode => .error (.unknownView mode)

end ViewMode

namespace Item

/-- An item without a place. -/
def plain (command : Nat) (params : Params) : Item :=
  ⟨command, Frame.ofMission, params, 0, 0, 0, true⟩

/-- An item at a place. -/
def placed (command : Nat) (frame : Frame) (params : Params) (place : Geo.Point)
    (altitude : Float) : Item :=
  ⟨command, frame.id, params, place.latitude, place.longitude, altitude, true⟩

def place (i : Item) : Geo.Point :=
  ⟨i.x, i.y⟩

end Item

namespace Command

def toItem (c : Command) : Item :=
  match c with
  | .waypoint place altitude yaw hold frame =>
    Item.placed c.id frame ⟨hold, 0, 0, yaw⟩ place altitude
  | .lookAt place altitude frame => Item.placed c.id frame ⟨0, 0, 0, 0⟩ place altitude
  | .delay seconds => Item.plain c.id ⟨seconds, -1, -1, -1⟩
  | .speed value => Item.plain c.id ⟨1, value, -1, 0⟩
  | .view mode => Item.plain c.id mode.params
  | .tilt angle => { Item.plain c.id ⟨angle, 0, 0, 0⟩ with z := 2 }
  | .triggerDistance metres once =>
    Item.plain c.id ⟨metres, 0, if once then 1 else 0, 0⟩
  | .triggerInterval millis => Item.plain c.id ⟨millis, -1, 0, 0⟩
  | .startPhotos interval count => Item.plain c.id ⟨0, interval, Decimal.ofNat count, 0⟩
  | .panorama horizontalAngle horizontalSpeed verticalAngle verticalSpeed =>
    Item.plain c.id ⟨horizontalAngle, verticalAngle, horizontalSpeed, verticalSpeed⟩
  | .stillMode mode interval => Item.plain c.id ⟨Decimal.ofNat mode, interval, 0, 0⟩
  | .returnToLaunch | .land | .takeOff | .lookFree | .stopPhotos | .startVideo | .stopVideo =>
    Item.plain c.id ⟨0, 0, 0, 0⟩

def ofItem (i : Item) : Except CommandFault Command :=
  match i.command with
  | 16 => do return .waypoint i.place i.z i.params.d i.params.a (← Frame.ofId 16 i.frame)
  | 20 => .ok .returnToLaunch
  | 21 => .ok .land
  | 22 => .ok .takeOff
  | 93 => .ok (.delay i.params.a)
  | 178 => .ok (.speed i.params.b)
  | 195 => do return .lookAt i.place i.z (← Frame.ofId 195 i.frame)
  | 197 => .ok .lookFree
  | 50000 => do return .view (← ViewMode.ofParams i.params)
  | 205 => .ok (.tilt i.params.a)
  | 206 => .ok (.triggerDistance i.params.a (i.params.c != 0))
  | 214 => .ok (.triggerInterval i.params.a)
  | 2000 => .ok (.startPhotos i.params.b (toCount i.params.c))
  | 2001 => .ok .stopPhotos
  | 2500 => .ok .startVideo
  | 2501 => .ok .stopVideo
  | 2800 => .ok (.panorama i.params.a i.params.c i.params.b i.params.d)
  | 50001 => .ok (.stillMode (toCount i.params.a) i.params.b)
  | command => .error (.unsupportedCommand command)

end Command

/-! ## As JSON -/

open Json (Shape)

namespace Geo.Point

def shape : Shape :=
  Shape.record [Shape.required "latitude" Shape.float, Shape.required "longitude" Shape.float]

def toJson (p : Point) : Json :=
  .object [("latitude", .number p.latitude), ("longitude", .number p.longitude)]

def ofJson? (j : Json) : Option Point := do
  return ⟨← (← j.field? "latitude").float?, ← (← j.field? "longitude").float?⟩

end Geo.Point

namespace Frame

def name : Frame → String
  | .relative => "relative"
  | .absolute => "absolute"

def ofName? (s : String) : Option Frame :=
  [relative, absolute].find? (·.name = s)

def shape : Shape :=
  Shape.choice [("relative", none), ("absolute", none)]

def toJson (f : Frame) : Json :=
  .text f.name

def ofJson? (j : Json) : Option Frame :=
  j.text?.bind ofName?

end Frame

namespace ViewMode

def shape : Shape :=
  Shape.choice [("absolute", none), ("continue", none), ("roi", some Shape.word32)]

def toJson : ViewMode → Json
  | .absolute => .text "absolute"
  | .ahead => .text "continue"
  | .target index => .object [("roi", .ofNat index)]

def ofJson? : Json → Option ViewMode
  | .text "absolute" => some .absolute
  | .text "continue" => some .ahead
  | .object [("roi", j)] => j.nat?.map .target
  | _ => none

end ViewMode

namespace Item

def shape : Shape :=
  Shape.record [
    Shape.required "command" Shape.word16,
    Shape.required "frame" Shape.word8,
    Shape.required "params" (Shape.exactly 4 Shape.float),
    Shape.required "x" Shape.float,
    Shape.required "y" Shape.float,
    Shape.required "z" Shape.float,
    Shape.required "autocontinue" Shape.bool]

def toJson (i : Item) : Json :=
  .object [
    ("command", .ofNat i.command),
    ("frame", .ofNat i.frame),
    ("params", .list [.number i.params.a, .number i.params.b, .number i.params.c,
      .number i.params.d]),
    ("x", .number i.x),
    ("y", .number i.y),
    ("z", .number i.z),
    ("autocontinue", .bool i.autocontinue)]

def ofJson? (j : Json) : Option Item := do
  let params ← match (← (← j.field? "params").list? Json.float?) with
    | [a, b, c, d] => some ⟨a, b, c, d⟩
    | _ => none
  return {
    command := ← (← j.field? "command").nat?
    frame := ← (← j.field? "frame").nat?
    params
    x := ← (← j.field? "x").float?
    y := ← (← j.field? "y").float?
    z := ← (← j.field? "z").float?
    autocontinue := ← (← j.field? "autocontinue").bool? }

end Item

end Sortie
