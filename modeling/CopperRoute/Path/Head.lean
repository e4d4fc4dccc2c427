import CopperRoute.Geometry.Direction
import CopperRoute.Path.Request

/-!
# The shape of a head

A head runs over one **corner**.  In ortho mode the corner joins a horizontal and
a vertical piece, otherwise a diagonal and a straight one; the posture says which
comes first.  A rounded head cuts the corner off: it leaves the path up to one
track width before the corner, but never before the middle of a piece.

`headPoints` lists the points of the head from start to end, no two neighbours
equal.
-/

namespace CopperRoute

/-- The list without elements that equal the one before them. -/
def dropRepeats {α : Type} [DecidableEq α] : List α → List α
  | [] => []
  | [a] => [a]
  | a :: b :: rest => if a = b then dropRepeats (b :: rest) else a :: dropRepeats (b :: rest)

/-- The corner between two points. -/
def headCorner (start stop : Point) (posture : Posture) (ortho : Bool) : Checked Point :=
  if ortho then return squareCorner start stop (posture == .diagonalFirst)
  else diagonalCorner start stop (posture == .diagonalFirst)

/-- The board position `distance` away from one point in the direction of
another. -/
def towards (source goal : Point) (distance : Float) : Checked Point := do
  let direction := (← goal.minus source).toVec
  if direction.length == 0.0 then return source
  return (source.toVec.add ((direction.divide direction.length).scale distance)).toPoint

/-- The points that take the place of the corner. -/
def bend (start corner stop : Point) (width : UInt32) (rounded : Bool) : Checked (List Point) := do
  if rounded && corner != start && corner != stop then
    let cut := min (min width.toFloat (start.distance corner / 2.0)) (corner.distance stop / 2.0)
    return [← towards corner start cut, ← towards corner stop cut]
  else return [corner]

/-- The points of a head to `stop`. -/
def headPoints (r : RouteRequest) (stop : Point) : Checked (List Point) := do
  let corner ← headCorner r.start stop r.posture r.ortho
  let middle ← bend r.start corner stop r.trackWidth r.rounded
  return dropRepeats (r.start :: middle ++ [stop])

/-- The tracks along a list of points. -/
def tracksAlong (r : RouteRequest) (points : List Point) : List Draft :=
  (points.zip points.tail).map fun p => Draft.track ⟨p.1, p.2⟩ r.trackWidth r.layer r.net

end CopperRoute
