import CopperRoute.Change.Basic
import CopperRoute.Drag.Motion
import CopperRoute.Path.Request
import CopperRoute.Sizes

/-!
# Running operations

At most one operation runs at a time: a **route** or a **drag**.

A route is a list of fixed **steps** and a loose head.  Fixing a head makes it a
step, and the next head leaves from its end (`RouteOp.pushStep`); taking a step
back restores what the head left from before (`RouteOp.undoStep`).  A step keeps
its copper as drafts until the route ends (`RouteOp.changeset`).
-/

namespace CopperRoute

/-- A via that hangs at the head and is placed with the next step. -/
structure PendingVia where
  via : HeadVia
  /-- The layer on which the head runs up to the via. -/
  fromLayer : LayerId
  /-- The layer on which the route goes on behind it. -/
  toLayer : LayerId
  /-- The sizes before the via was asked for. -/
  sizesBefore : Sizes
  deriving DecidableEq, Repr, Inhabited

/-- A fixed part of a route, and what the head left from before it was fixed. -/
structure RouteStep where
  items : List Draft
  length : Float
  start : Point
  startItem : Option ItemId
  layer : LayerId
  via : Option PendingVia
  deriving Repr, Inhabited

/-- A running route. -/
structure RouteOp where
  net : NetCode
  /-- Where the head starts. -/
  start : Point
  startItem : Option ItemId
  /-- The layer of the head. -/
  layer : LayerId
  sizes : Sizes
  via : Option PendingVia
  /-- Where the head was last wanted to end. -/
  stop : Point
  stopItem : Option ItemId
  ortho : Bool
  /-- The last head that the engine gave. -/
  head : Option RouteGeometry
  steps : List RouteStep
  deriving Repr, Inhabited

namespace RouteOp

/-- A route that starts at a point. -/
def new (net : NetCode) (start : Point) (startItem : Option ItemId) (layer : LayerId)
    (sizes : Sizes) : RouteOp where
  net := net
  start := start
  startItem := startItem
  layer := layer
  sizes := sizes
  via := none
  stop := start
  stopItem := none
  ortho := false
  head := none
  steps := []

/-- The question for the current head. -/
def request (op : RouteOp) (mode : RouterMode) (posture : Posture) (rounded : Bool) :
    RouteRequest where
  start := op.start
  startItem := op.startItem
  layer := op.layer
  stop := op.stop
  stopItem := op.stopItem
  net := op.net
  trackWidth := op.sizes.trackWidth
  via := op.via.map PendingVia.via
  mode := mode
  posture := posture
  ortho := op.ortho
  rounded := rounded

/-- The length of the steps and the head. -/
def totalLength (op : RouteOp) : Float :=
  floatSum (op.steps.map RouteStep.length) +
    match op.head with
    | some g => g.length
    | none => 0.0

/-- Fix a head: it becomes a step, and the next head leaves from its end. -/
def pushStep (op : RouteOp) (g : RouteGeometry) : RouteOp :=
  { op with
    steps := op.steps ++ [⟨g.items, g.length, op.start, op.startItem, op.layer, op.via⟩]
    start := g.stop
    startItem := op.stopItem
    layer :=
      match op.via with
      | some pending => pending.toLayer
      | none => g.stopLayer
    via := none
    head := none }

/-- Take the last step back, if there is one. -/
def undoStep (op : RouteOp) : Option RouteOp :=
  op.steps.getLast?.map fun s =>
    { op with
      steps := op.steps.dropLast
      start := s.start
      startItem := s.startItem
      layer := s.layer
      via := s.via
      head := none }

/-- The copper of all steps. -/
def staged (op : RouteOp) : List Draft := op.steps.flatMap RouteStep.items

/-- The copper of all steps and of a head, as additions to the board. -/
def changeset (op : RouteOp) (head : Option RouteGeometry) : Changeset :=
  { Changeset.empty with
    added := op.staged ++
      match head with
      | some g => g.items
      | none => [] }

end RouteOp

/-- A running drag. -/
structure DragOp where
  drag : Drag
  /-- The change of locked items was confirmed. -/
  allowLocked : Bool
  /-- The last move had no solution. -/
  blocked : Bool
  deriving DecidableEq, Repr, Inhabited

/-- A drag that has not moved yet. -/
def DragOp.new (drag : Drag) (allowLocked : Bool) : DragOp := ⟨drag, allowLocked, false⟩

/-- What runs. -/
inductive Operation
  | none
  | routing (op : RouteOp)
  | dragging (op : DragOp)
  deriving Repr, Inhabited

def Operation.isNone : Operation → Bool
  | none => true
  | _ => false

end CopperRoute
