import Sortie.Json.Shape
import Sortie.Clock.Span
import Sortie.Store.Path

/-!
# Settings of the compiler

Where plans are kept and how long the aircraft waits before it returns. Settings that are not
given have defaults.
-/

namespace Sortie

open Json (Shape)
open Json.Shape (setting)

structure CompileSettings where
  root : Store.Path := Store.Path.ofString "/tmp/flightplans"
  planEnding : String := "plan"
  waylistEnding : String := "mavlink"
  /-- Seconds before the return to launch. -/
  returnDelay : Float := 2

namespace CompileSettings

def default : CompileSettings := {}

def returnSpan (s : CompileSettings) : Except Clock.Span.Fault Clock.Span :=
  Clock.Span.ofSecondsFloat s.returnDelay

def shape : Shape :=
  Shape.settings [
    setting "storage_root" Shape.text (.text default.root.toString),
    setting "plan_extension" Shape.text (.text default.planEnding),
    setting "mavlink_extension" Shape.text (.text default.waylistEnding),
    setting "rth_delay_secs" Shape.float (.number default.returnDelay)]

def ofJson? (j : Json) : Option CompileSettings := do
  return {
    root := Store.Path.ofString (← (← j.field? "storage_root").text?)
    planEnding := ← (← j.field? "plan_extension").text?
    waylistEnding := ← (← j.field? "mavlink_extension").text?
    returnDelay := ← (← j.field? "rth_delay_secs").float? }

def ofBytes (bytes : Text.Bytes) : Except Json.Fault CompileSettings := do
  match ofJson? (← Shape.decode shape bytes) with
  | some s => return s
  | none => throw .mismatched

end CompileSettings

end Sortie
