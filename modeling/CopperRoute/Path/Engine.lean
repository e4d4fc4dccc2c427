import CopperRoute.Board
import CopperRoute.Path.Head

/-!
# The path engine

The engine works on its **world**, a board it was given; without one it answers
nothing.  It computes every answer from the request and the world alone.

A piece of copper **conflicts** with an item of another net (net `0` with every
net) when they share a layer and their outlines come closer than the board's
minimum clearance.  The engine first works out the geometry together with all
conflicts (`Board.routeGeometry`, `Board.dragGeometry`); then the router mode
decides (`settle`): marking obstacles accepts everything, the other modes only
what is free of conflicts.
-/

namespace CopperRoute

/-- The board that the path engine works on. -/
abbrev World := Option Board

namespace Board

/-- Can an item be in the way of copper with this net and these layers? -/
def mayObstruct (net : NetCode) (layers : LayerRange) (exempt : List ItemId) (i : Item) : Bool :=
  !exempt.contains i.id && (net == 0 || i.net != net) && i.layers.intersects layers

/-- The items closer to the outline than the board's minimum clearance, in board
order. -/
def conflicts (b : Board) (outline : Capsule) (layers : LayerRange) (net : NetCode)
    (exempt : List ItemId) : Checked (List ItemId) := do
  let measured ← (b.items.filter (mayObstruct net layers exempt)).mapM fun i =>
    return (i.id, ← outline.gap i.outline)
  return (measured.filter fun m => m.2 < b.design.minClearance.toFloat).map Prod.fst

/-- The items that conflict with any of several pieces of copper, each once, in
the order in which they are met. -/
def allConflicts (b : Board) (copper : List Draft) (exempt : List ItemId) :
    Checked (List ItemId) := do
  let hits ← copper.mapM fun d => b.conflicts d.outline d.layers d.net exempt
  return hits.flatten.eraseDups

end Board

/-- Copper that a route can end or start at offers one point: the nearer end of a
track, the middle of everything else. -/
def Item.snapPoint (i : Item) (p : Point) : Point :=
  match i.shape with
  | .segment axis _ =>
    if p.distance axis.start ≤ p.distance axis.stop then axis.start else axis.stop
  | .via position .. => position
  | .solid position _ => position

/-- The draft that an item came from. -/
def Item.draft (i : Item) : Draft := ⟨i.shape, i.net, i.layers⟩

namespace Board

/-- The item that a head may end on: copper under the pointer of its own net that
reaches its layer. -/
def routeTarget (b : Board) (r : RouteRequest) : Option Item :=
  (r.stopItem.bind b.item?).filter fun i => i.net == r.net && i.layers.contains r.layer

/-- The via at the end of a head. -/
def headVia (r : RouteRequest) (stop : Point) : Option Draft :=
  r.via.map fun v => Draft.via stop v.diameter v.drill v.viaType v.span r.net

/-- The layer on which the route goes on after the head. -/
def headLayer (r : RouteRequest) : LayerId :=
  match r.via with
  | some v => (v.span.paired r.layer).getD r.layer
  | none => r.layer

/-- The head with everything in its way. -/
def routeGeometry (b : Board) (r : RouteRequest) : Checked RouteGeometry := do
  let target := b.routeTarget r
  let stop := match target with
    | some i => i.snapPoint r.stop
    | none => r.stop
  let items := tracksAlong r (← headPoints r stop) ++ (headVia r stop).toList
  let exempt := r.startItem.toList ++ (target.map Item.id).toList
  return {
    items := items
    stop := stop
    stopLayer := headLayer r
    reachedTarget := target.isSome
    length := floatSum (items.map fun d => d.shape.trackLength)
    collisions := ← b.allConflicts items exempt }

/-- The anchors that a drag moves: old place, new place and net. -/
def movedAnchors (grabbed moved : List Item) : List (Point × Point × NetCode) :=
  (grabbed.zip moved).flatMap fun (before, after) =>
    ((before.anchors.zip after.anchors).filter fun p => p.1 != p.2).map fun p =>
      (p.1, p.2, before.net)

/-- Where a point of copper with this net goes. -/
def relocate (anchors : List (Point × Point × NetCode)) (net : NetCode) (p : Point) : Point :=
  match anchors.find? fun a => a.1 == p && a.2.2 == net with
  | some a => a.2.1
  | none => p

/-- A track whose ends follow the moved anchors, if they move at all. -/
def stretched? (anchors : List (Point × Point × NetCode)) (i : Item) : Option Item :=
  match i.shape with
  | .segment axis width =>
    let moved : Segment := ⟨relocate anchors i.net axis.start, relocate anchors i.net axis.stop⟩
    if moved = axis then none else some { i with shape := .segment moved width }
  | _ => none

/-- The dragged items at their new place and the stretched tracks, with
everything in their way. -/
def dragGeometry (b : Board) (grabbed moved : List Item) : Checked DragGeometry := do
  let dragged := grabbed.map Item.id
  let anchors := movedAnchors grabbed moved
  let resting := b.items.filter fun i => !dragged.contains i.id
  let modified := moved ++ resting.filterMap (stretched? anchors)
  return ⟨modified, ← b.allConflicts (modified.map Item.draft) (modified.map Item.id)⟩

end Board

/-- What the router mode makes of an answer with the given items in its way. -/
def settle {α : Type} (mode : RouterMode) (collisions : List ItemId) (answer : α) :
    Except EngineFailure α :=
  match mode, collisions with
  | .markObstacles, _ | _, [] => .ok answer
  | _, hit :: _ => .error (.noSolution hit)

namespace World

/-- The head that a route asks for. -/
def route (w : World) (r : RouteRequest) : Checked (Except EngineFailure RouteGeometry) := do
  match w with
  | none => return .error .noWorld
  | some b =>
    let g ← b.routeGeometry r
    return settle r.mode g.collisions g

/-- The items that a drag changes. -/
def drag (w : World) (grabbed moved : List Item) (mode : RouterMode) :
    Checked (Except EngineFailure DragGeometry) := do
  match w with
  | none => return .error .noWorld
  | some b =>
    let g ← b.dragGeometry grabbed moved
    return settle mode g.collisions g

/-- Why no route can start here.  On copper it needs that copper to reach the
layer, in the open a free disc as wide as the track. -/
def startRefusal? (w : World) (start : Point) (startItem : Option ItemId) (layer : LayerId)
    (sizes : Sizes) : Checked (Option StartRefusal) := do
  match w, startItem with
  | none, _ => return some .noWorld
  | some b, none =>
    let probe := Capsule.circle start (Shape.half sizes.trackWidth)
    let hits ← b.conflicts probe (LayerRange.single layer) 0 []
    return hits.head?.map .tooClose
  | some b, some id =>
    match b.item? id with
    | none => return some (.unknownItem id)
    | some i => return if i.layers.contains layer then none else some (.notOnLayer id layer)

/-- How a head gets to the layer `target`.  From a via or a pad that reaches the
layer it goes on directly. -/
def switchLayer (w : World) (r : RouteRequest) (target : LayerId) : LayerSwitch :=
  match w with
  | none => .refused .noWorld
  | some b =>
    if !b.stackup.contains target then .refused (.notCopper target)
    else if (r.startItem.bind b.item?).any fun i => !i.isSegment && i.layers.contains target then
      .direct
    else .viaRequired

end World

end CopperRoute
