import CopperRoute.Change.Basic
import CopperRoute.Drag.Mode
import CopperRoute.Path.Engine

/-!
# Dragging items

A **drag** remembers the items as they were when they were grabbed.  Every move
is computed from these items and the target alone, so moves never add up
errors.  What is displayed is the engine's last answer; a move without a solution
leaves it as it is.
-/

namespace CopperRoute

/-- How an engine answers drags while its world stays the same: from the grabbed items, the same
items as they were moved, and the router mode.  The path engine answers with `World.drag`. -/
abbrev DragSolver :=
  List Item → List Item → RouterMode → Checked (Except EngineFailure DragGeometry)

/-- A drag in progress. -/
structure Drag where
  /-- The items as they were when they were grabbed. -/
  grabbed : List Item
  /-- The point where they were grabbed. -/
  anchor : Point
  mode : DragMode
  routerMode : RouterMode
  /-- The last answer of the engine. -/
  displayed : DragGeometry
  /-- The target of that answer. -/
  lastTarget : Option Point
  deriving DecidableEq, Repr, Inhabited

namespace Drag

/-- Grab items. -/
def start (grabbed : List Item) (anchor : Point) (mode : DragMode) (routerMode : RouterMode) :
    Drag where
  grabbed := grabbed
  anchor := anchor
  mode := mode
  routerMode := routerMode
  displayed := ⟨grabbed, []⟩
  lastTarget := none

/-- The part of a displacement that an item follows. -/
def allowedShift (mode : DragMode) (i : Item) (delta : Point) : Checked Point :=
  if mode.isFreeAngle then return delta
  else
    match i.shape with
    | .segment axis _ => projectOnNormal delta axis
    | _ => return snapToOctant delta

/-- An item that follows a displacement as its mode allows. -/
def constrained (mode : DragMode) (delta : Point) (i : Item) : Checked Item := do
  i.moveBy (← allowedShift mode i delta)

/-- The items moved towards `target`, and what the engine says to it. -/
def solve (d : Drag) (engine : DragSolver) (target : Point) :
    Checked (Except EngineFailure DragGeometry) := do
  let delta ← target.minus d.anchor
  let moved ← d.grabbed.mapM (constrained d.mode delta)
  engine d.grabbed moved d.routerMode

/-- Move to `target`.  The target already reached needs no answer.  A move that fails gives no
drag back: by the type of its result it changes nothing, and the drag that was there stays. -/
def moveWith (d : Drag) (engine : DragSolver) (target : Point) :
    Checked (Except RouterError Drag) := do
  if d.lastTarget = some target then return .ok d
  match ← d.solve engine target with
  | .ok geometry => return .ok { d with displayed := geometry, lastTarget := some target }
  | .error _ => return .error .noGeometricSolution

/-- Move to `target` in the world of the path engine. -/
def moveTo (d : Drag) (w : World) (target : Point) : Checked (Except RouterError Drag) :=
  d.moveWith w.drag target

/-- The displayed items that are not as they were. -/
def changeset (d : Drag) (allowLocked : Bool) : Changeset :=
  { Changeset.empty with
    modified := d.displayed.modified.filter fun i => !d.grabbed.contains i
    allowLocked := allowLocked }

end Drag

end CopperRoute
