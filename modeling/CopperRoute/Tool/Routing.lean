import CopperRoute.Tool.Basic

/-!
# Routing commands

A route begins on the active layer, or on the first layer of the copper it starts
from.  Every movement of the pointer asks for a new head.  A fix either ends the
route (when it is forced, or when the head ends on copper of its own net) and
takes everything over at once, or makes the head a step and goes on from there.
-/

namespace CopperRoute

/-- Where a route from this copper starts: in its middle, or on a track at the end
within the tolerance, the first one first, or else at the nearest point. -/
def Item.startPoint (i : Item) (p : Point) (tolerance : Float) : Checked Point :=
  match i.shape with
  | .segment axis _ =>
    match [axis.start, axis.stop].find? fun q => q.distance p ≤ tolerance with
    | some q => .ok q
    | none => axis.nearestPoint p
  | .via position .. => .ok position
  | .solid position _ => .ok position

/-- Whose sizes a route uses: those of the copper it starts from, or of its net. -/
def SizingKey.ofStart (net : NetCode) : Option Item → SizingKey
  | some item => .startItem item
  | none => .net net

/-- The route with its head wanted at a point.  The copper that the head leaves from
is no target. -/
def RouteOp.aim (op : RouteOp) (position : Point) (id : Option ItemId) (ortho : Bool) : RouteOp :=
  { op with
    stop := position
    stopItem := id.filter fun i => some i != op.startItem
    ortho := ortho }

/-- The session with a head fixed as a step, and the route going on from there. -/
def Session.extendRoute (s : Session) (g : RouteGeometry) : Session :=
  let s := (s.beginFix.mapRoute fun op => op.pushStep g).resume
  { s with activeLayer := (s.route?.map RouteOp.layer).getD s.activeLayer }

namespace Tool

/-- The net of the copper that a route starts from; net `0` in the open. -/
def startNet : Option Item → NetCode
  | some item => item.net
  | none => 0

/-- The layer that a route starts on. -/
def startLayer (s : Session) : Option Item → LayerId
  | some item => if item.layers.contains s.activeLayer then s.activeLayer else item.layers.first
  | none => s.activeLayer

/-- The sizes that a route starts with. -/
def startSizes (t : Tool) (item : Option Item) (layer : LayerId) : Sizes :=
  let pair := t.board.defaultPair
  let key := SizingKey.ofStart (startNet item) item
  let request := SizingRequest.forBoard t.board key .through pair layer
  (Sizing.resolve t.board request (t.session.savedSizes.getD Sizes.standard) t.rules).addLayerPair
    pair

/-- Go back from the preparation of a route. -/
def refuseStart (t : Tool) (e : RouterError) : Tool := (t.mapSession Session.abortPrepare).report e

/-- The session gets ready for a route at the pointer. -/
def prepareStart (t : Tool) (position : Point) : Tool :=
  t.mapSession fun s => { s with cursor := position }.beginPrepare

/-- The point that a route starts at, on copper or in the open. -/
def startPoint (t : Tool) (position : Point) : Option Item → Checked Point
  | some item => item.startPoint position t.options.tolerance
  | none => .ok position

/-- Begin a route on a copper layer, if the engine lets it start there. -/
def openRoute (t : Tool) (position : Point) (id : Option ItemId) (item : Option Item)
    (layer : LayerId) : Checked Tool := do
  let net := startNet item
  let sizes := t.startSizes item layer
  let start ← t.startPoint position item
  let t := t.mapHost fun h => h.acquire (if net = 0 then none else some net)
  match ← t.world.startRefusal? start id layer sizes with
  | some reason => return (t.mapHost Host.release).refuseStart (.startFailure reason)
  | none =>
    return { t with
      toInteraction := t.toInteraction.startRouting (RouteOp.new net start id layer sizes) }

/-- Begin a route. -/
def startRouting (t : Tool) (position : Point) (id : Option ItemId) : Checked Tool := do
  let t := (← t.makeIdle).prepareStart position
  let item := id.bind t.board.item?
  let layer := startLayer t.session item
  if t.board.stackup.contains layer then t.openRoute position id item layer
  else return t.refuseStart (.inputRejected (.notCopper layer))

/-- Follow the pointer with the head. -/
def moveHead (t : Tool) (position : Point) (id : Option ItemId) (ortho : Bool) : Checked Tool :=
  (t.mapSession fun s =>
    { s with cursor := position }.mapRoute fun op => op.aim position id ortho).refreshHead

/-- End the route with this head. -/
def finishRoute (t : Tool) (g : RouteGeometry) : Checked Tool := do
  let changes := (t.session.route?.map fun op => op.changeset (some g)).getD Changeset.empty
  match ← (t.mapSession Session.beginFix).commit changes with
  | (.ok report, t) =>
    return { t with toInteraction := t.toInteraction.finish (!report.added.isEmpty) }
  | (.error reason, t) => return (t.report (.commitFailed reason)).mapSession Session.resume

/-- Fix the route up to a point. -/
def fixRoute (t : Tool) (position : Point) (id : Option ItemId) (finish : Bool) :
    Checked Tool := do
  let ortho := (t.session.route?.map RouteOp.ortho).getD false
  let t ← t.moveHead position id ortho
  match t.session.request? with
  | none => return t
  | some r =>
    match ← t.world.route r with
    | .error _ => return t.report .noGeometricSolution
    | .ok g =>
      if finish || g.reachedTarget then t.finishRoute g
      else if g.items.isEmpty then return t
      else return t.mapSession fun s => s.extendRoute g

/-- The layer that a route goes on on: behind its via, if one hangs at the head. -/
def nextLayer (op : RouteOp) : LayerId :=
  match op.via with
  | some pending => pending.toLayer
  | none => op.layer

/-- Take the last step of the route back. -/
def undoLastSegment (t : Tool) : Checked Tool :=
  match t.session.route?.bind RouteOp.undoStep with
  | none => return t
  | some op =>
    (t.mapSession fun s =>
      { s with operation := .routing op, activeLayer := nextLayer op }).refreshHead

/-- Break the running operation off, or leave the tool. -/
def cancelOperation (t : Tool) : Checked Tool := do
  let (t, stopped) ← (t.mapSession fun s => { s with pendingViaTarget := none }).stopOperation
  return if stopped then t else t.mapSession Session.markExit

def flipPosture (t : Tool) : Checked Tool :=
  (t.mapSession fun s => { s with posture := s.posture.flipped }).refreshHead

def toggleRounding (t : Tool) : Checked Tool :=
  (t.mapSession fun s => { s with rounded := !s.rounded }).refreshHead

/-- Change the treatment of obstacles.  A drag keeps the one it began with. -/
def setRouterMode (t : Tool) (mode : RouterMode) : Checked Tool :=
  if t.session.isDragging then return t
  else (t.mapSession fun s => { s with mode := mode }).refreshHead

def trackCursor (t : Tool) (position : Point) : Tool :=
  t.mapSession fun s => { s with cursor := position }

end Tool

end CopperRoute
