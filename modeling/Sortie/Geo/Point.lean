import Sortie.Decimal.Binary

/-!
# Places on a spherical earth

Distances are great circles. A leg between two places is short enough to be flat, so the share
of it that a position covers is a projection.
-/

namespace Sortie.Geo

/-- A place in degrees. -/
structure Point where
  latitude : Float
  longitude : Float
  deriving BEq, DecidableEq, Repr, Inhabited

def earthRadius : Float := 6371008.8

def pi : Float := 3.141592653589793

def radians (degrees : Float) : Float :=
  degrees * (pi / 180.0)

def degrees (radians : Float) : Float :=
  radians * (180.0 / pi)

def square (x : Float) : Float :=
  x * x

/-- Metres along the great circle. -/
def Point.distance (a b : Point) : Float :=
  let lat₁ := radians a.latitude
  let lat₂ := radians b.latitude
  let dlat := lat₂ - lat₁
  let dlon := radians (b.longitude - a.longitude)
  let h := square (dlat / 2.0).sin + lat₁.cos * lat₂.cos * square (dlon / 2.0).sin
  2.0 * earthRadius * Float.atan2 h.sqrt (1.0 - h).sqrt

/-- The heading at `a` of the great circle to `b`, from north, in degrees. -/
def Point.bearing (a b : Point) : Float :=
  let lat₁ := radians a.latitude
  let lat₂ := radians b.latitude
  let dlon := radians (b.longitude - a.longitude)
  let y := dlon.sin * lat₂.cos
  let x := lat₁.cos * lat₂.sin - lat₁.sin * lat₂.cos * dlon.cos
  Decimal.wrap (degrees (Float.atan2 y x)) 360

/-- Metres east and north of an origin nearby. -/
def Point.offset (p origin : Point) : Float × Float :=
  let middle := radians ((p.latitude + origin.latitude) / 2.0)
  (radians (p.longitude - origin.longitude) * middle.cos * earthRadius,
    radians (p.latitude - origin.latitude) * earthRadius)

/-- The gap between one and the next number. -/
def epsilon : Float := 2.220446049250313e-16

/-- Limits a value to `0 … 1`. What cannot be compared stays as it is. -/
def limitToUnit {α : Type} [OfNat α 0] [OfNat α 1] [LT α] [DecidableLT α] (x : α) : α :=
  let y := if x < 0 then 0 else x
  if 1 < y then 1 else y

/-- The share of the leg between two places that a position covers, seen from the side. A leg
without length has none of it covered. -/
def legShare (start finish position : Point) : Float :=
  let (bx, byy) := finish.offset start
  let (px, py) := position.offset start
  let length := bx * bx + byy * byy
  if length ≤ epsilon then 0.0
  else limitToUnit ((px * bx + py * byy) / length)

end Sortie.Geo
