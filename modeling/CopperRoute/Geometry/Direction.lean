import CopperRoute.Geometry.Segment

/-!
# Directions and corners

Tracks run along eight directions.  This module bends movements and paths to
them: `snapToOctant` turns a displacement to the nearest of the eight,
`projectOnNormal` keeps only the part of a displacement that shifts a segment
sideways, and the two corner functions choose where a path of two straight
pieces bends.
-/

namespace CopperRoute

/-- An eighth of a full turn. -/
def eighthTurn : Float := 0.7853981633974483

/-- The displacement turned to the nearest of the eight directions, as far as
it reaches along it. -/
def snapToOctant (v : Point) : Point :=
  if v = Point.zero then v
  else
    let w := v.toVec
    let angle := (Float.atan2 w.y w.x / eighthTurn).round * eighthTurn
    let direction : Vec := ⟨angle.cos, angle.sin⟩
    (direction.scale (w.dot direction)).toPoint

/-- The part of a displacement across the segment.  A segment of one point has
no direction to keep, so the whole displacement stays. -/
def projectOnNormal (v : Point) (s : Segment) : Checked Point := do
  let along := (← s.stop.minus s.start).toVec
  if along.lengthSquared == 0.0 then return v
  let normal := along.perp.normalize
  return (normal.scale (v.toVec.dot normal)).toPoint

/-- The size of a coordinate difference; the lowest word has no counterpart. -/
def magnitude (v : Int32) : Checked Int := do
  return (← int32 v.toInt.natAbs).toInt

/-- Where a path of a diagonal and a straight piece bends: the diagonal takes
up the smaller of the two coordinate differences, at the start or at the end. -/
def diagonalCorner (start stop : Point) (diagonalFirst : Bool) : Checked Point := do
  let d ← stop.minus start
  let reach := min (← magnitude d.x) (← magnitude d.y)
  let dx := d.x.toInt.sign * reach
  let dy := d.y.toInt.sign * reach
  if diagonalFirst then
    return ⟨← int32 (start.x.toInt + dx), ← int32 (start.y.toInt + dy)⟩
  else
    return ⟨← int32 (stop.x.toInt - dx), ← int32 (stop.y.toInt - dy)⟩

/-- Where a path of a horizontal and a vertical piece bends. -/
def squareCorner (start stop : Point) (horizontalFirst : Bool) : Point :=
  if horizontalFirst then ⟨stop.x, start.y⟩ else ⟨start.x, stop.y⟩

end CopperRoute
