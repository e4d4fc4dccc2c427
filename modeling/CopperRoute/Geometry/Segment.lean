import CopperRoute.Geometry.Point

/-!
# Segments

A `Segment` is the closed line between two points; it may be a single point.
Whether two segments meet is decided in whole numbers by the turn that three
points make (`orientation`), so the answer does not depend on rounding.  The
arithmetic is that of double coordinate words: a turn between points that lie
far apart may fault.

* `Segment.intersects`: do two segments share a point?
* `Segment.separation`: the distance of two segments, `0.0` when they meet.
* `Segment.nearestPoint`: the board position of a segment nearest to a point.
-/

namespace CopperRoute

/-- The closed line from `start` to `stop`. -/
structure Segment where
  start : Point
  stop : Point
  deriving DecidableEq, Repr, Inhabited

/-- The turn made at `a` when the view swings from `b` to `c`: `1` to the left,
`-1` to the right, `0` when the three points are in line. -/
def orientation (a b c : Point) : Checked Int := do
  let ab : Int × Int := (b.x.toInt - a.x.toInt, b.y.toInt - a.y.toInt)
  let ac : Int × Int := (c.x.toInt - a.x.toInt, c.y.toInt - a.y.toInt)
  let left ← int64 (ab.1 * ac.2)
  let right ← int64 (ab.2 * ac.1)
  return (← int64 (left - right)).sign

namespace Segment

/-- Does `p` lie in the smallest upright rectangle around the segment? -/
def boxHolds (s : Segment) (p : Point) : Bool :=
  min s.start.x.toInt s.stop.x.toInt ≤ p.x.toInt && p.x.toInt ≤ max s.start.x.toInt s.stop.x.toInt &&
    min s.start.y.toInt s.stop.y.toInt ≤ p.y.toInt && p.y.toInt ≤ max s.start.y.toInt s.stop.y.toInt

/-- Do two segments share a point?  They cross when each separates the ends of
the other; otherwise they can only touch at an end that is in line. -/
def intersects (s t : Segment) : Checked Bool := do
  let o₁ ← orientation s.start s.stop t.start
  let o₂ ← orientation s.start s.stop t.stop
  let o₃ ← orientation t.start t.stop s.start
  let o₄ ← orientation t.start t.stop s.stop
  return (o₁ != o₂ && o₃ != o₄) ||
    (o₁ == 0 && s.boxHolds t.start) || (o₂ == 0 && s.boxHolds t.stop) ||
    (o₃ == 0 && t.boxHolds s.start) || (o₄ == 0 && t.boxHolds s.stop)

/-- A number moved into the interval from zero to one. -/
def clampUnit (t : Float) : Float :=
  if t < 0.0 then 0.0 else if t > 1.0 then 1.0 else t

/-- The distance of a point to the nearest point of the segment. -/
def distanceTo (s : Segment) (p : Point) : Float :=
  let a := s.start.toVec
  let ab := s.stop.toVec.sub a
  if ab.lengthSquared == 0.0 then p.toVec.distance a
  else
    let t := clampUnit ((p.toVec.sub a).dot ab / ab.lengthSquared)
    p.toVec.distance (a.add (ab.scale t))

/-- The distance of two segments; segments that meet have distance `0.0`. -/
def separation (s t : Segment) : Checked Float := do
  if ← s.intersects t then return 0.0
  return min (min (min (t.distanceTo s.start) (t.distanceTo s.stop))
    (s.distanceTo t.start)) (s.distanceTo t.stop)

def length (s : Segment) : Float := s.start.distance s.stop

/-- The board position on the segment nearest to `p`. -/
def nearestPoint (s : Segment) (p : Point) : Checked Point := do
  let ab := (← s.stop.minus s.start).toVec
  if ab.lengthSquared == 0.0 then return s.start
  let t := clampUnit ((← p.minus s.start).toVec.dot ab / ab.lengthSquared)
  return (s.start.toVec.add (ab.scale t)).toPoint

end Segment

end CopperRoute
