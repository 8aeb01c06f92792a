import Sortie.Json.Shape
import Sortie.Clock.Span
import Sortie.Store.Path

/-!
# Settings of a run

How often time is counted, how long things are waited for, and how many events are kept.
-/

namespace Sortie

open Json (Shape)
open Json.Shape (setting)

structure RunSettings where
  /-- Milliseconds between two counts of the time flown. -/
  tickMillis : Nat := 1000
  /-- Milliseconds between two looks at a busy camera. -/
  pollMillis : Nat := 200
  /-- So many looks at a busy camera are too many. -/
  pollLimit : Nat := 50
  /-- Seconds for the aircraft to answer an activation. -/
  timeoutSeconds : Nat := 30
  /-- Decimal places of the progress. -/
  precision : Nat := 4
  /-- How many events are kept for a listener. -/
  eventBuffer : Nat := 256
  /-- How many orders of the pilot may wait. -/
  commandBuffer : Nat := 32
  deriving DecidableEq, Repr, Inhabited

namespace RunSettings

def default : RunSettings := {}

def tick (s : RunSettings) : Clock.Span :=
  Clock.Span.ofMillis s.tickMillis

def poll (s : RunSettings) : Clock.Span :=
  Clock.Span.ofMillis s.pollMillis

def timeout (s : RunSettings) : Clock.Span :=
  Clock.Span.ofSeconds s.timeoutSeconds

def shape : Shape :=
  Shape.settings [
    setting "running_tick_ms" Shape.word64 (.ofNat default.tickMillis),
    setting "settle_poll_ms" Shape.word64 (.ofNat default.pollMillis),
    setting "settle_max_attempts" Shape.word32 (.ofNat default.pollLimit),
    setting "activation_timeout_secs" Shape.word64 (.ofNat default.timeoutSeconds),
    setting "progress_precision" Shape.word32 (.ofNat default.precision),
    setting "event_buffer" Shape.word64 (.ofNat default.eventBuffer),
    setting "command_buffer" Shape.word64 (.ofNat default.commandBuffer)]

def toJson (s : RunSettings) : Json :=
  .object [
    ("running_tick_ms", .ofNat s.tickMillis),
    ("settle_poll_ms", .ofNat s.pollMillis),
    ("settle_max_attempts", .ofNat s.pollLimit),
    ("activation_timeout_secs", .ofNat s.timeoutSeconds),
    ("progress_precision", .ofNat s.precision),
    ("event_buffer", .ofNat s.eventBuffer),
    ("command_buffer", .ofNat s.commandBuffer)]

def ofJson? (j : Json) : Option RunSettings := do
  return {
    tickMillis := ← (← j.field? "running_tick_ms").nat?
    pollMillis := ← (← j.field? "settle_poll_ms").nat?
    pollLimit := ← (← j.field? "settle_max_attempts").nat?
    timeoutSeconds := ← (← j.field? "activation_timeout_secs").nat?
    precision := ← (← j.field? "progress_precision").nat?
    eventBuffer := ← (← j.field? "event_buffer").nat?
    commandBuffer := ← (← j.field? "command_buffer").nat? }

def ofBytes (bytes : Text.Bytes) : Except Json.Fault RunSettings := do
  match ofJson? (← Shape.decode shape bytes) with
  | some s => return s
  | none => throw .mismatched

/-- Why settings cannot be had from a file. -/
inductive Fault where
  | unreadable (fault : Store.Fault)
  | unusable (fault : Json.Fault)

/-- What is said of a file that cannot be read. -/
def Fault.message? : Fault → Option String
  | .unreadable fault =>
    some ("Configuration error: " ++ fault.path.toString ++ ": " ++ fault.message)
  | .unusable _ => none

def ofFile (content : Except Store.Fault Text.Bytes) : Except Fault RunSettings :=
  match content with
  | .error fault => .error (.unreadable fault)
  | .ok bytes =>
    match ofBytes bytes with
    | .ok s => .ok s
    | .error fault => .error (.unusable fault)

end RunSettings

end Sortie
