import CopperRoute.Drag.Mode
import CopperRoute.Layer.Navigation
import CopperRoute.Path.Request

/-!
# Commands

A **command** is one step that changes the state of the tool.  The executed
commands are kept in a **log**, which never holds more than `CommandLog.capacity`
of them: a full log first forgets its older half.
-/

namespace CopperRoute

/-- One step of the tool. -/
inductive Command
  /-- Begin a route, on an item if there is one. -/
  | startRouting (position : Point) (item : Option ItemId)
  | moveHead (position : Point) (item : Option ItemId) (ortho : Bool)
  /-- Fix the route up to a point; `finish` ends it there in any case. -/
  | fixRoute (position : Point) (item : Option ItemId) (finish : Bool)
  | undoLastSegment
  /-- Hang a via to the head, or take the one that hangs there back. -/
  | placeVia (viaType : ViaType) (target : Option LayerId)
  /-- Ask for the layer that the next via shall lead to. -/
  | requestViaTarget (viaType : ViaType)
  | switchLayer (command : LayerCommand)
  | flipPosture
  | toggleRounding
  | setRouterMode (mode : RouterMode)
  | setCustomTrackWidth (width : UInt32)
  | setCustomViaSize (diameter drill : UInt32)
  | setDiffPair (width gap viaGap : UInt32)
  | useNetClassSizes
  | selectLayerPair (pair : LayerPair)
  | startDrag (items : List ItemId) (anchor : Point) (mode : DragMode)
  | startFootprintDrag (footprint : FootprintId) (anchor : Point) (mode : DragMode)
  | moveDrag (position : Point)
  | fixDrag
  | breakTrack (position : Point)
  /-- Remember where the pointer is. -/
  | trackCursor (position : Point)
  /-- Break the running operation off, or leave the tool when none runs. -/
  | cancelOperation
  /-- Begin a new activation of the tool. -/
  | resetSession
  | clearWorld
  | syncWorld
  | undo
  | redo
  deriving DecidableEq, Repr, Inhabited

/-- The latest executed commands, oldest first. -/
structure CommandLog where
  commands : List Command
  deriving DecidableEq, Repr, Inhabited

namespace CommandLog

/-- How many commands are kept at most. -/
def capacity : Nat := 1000

def empty : CommandLog := ⟨[]⟩

def size (l : CommandLog) : Nat := l.commands.length

/-- The log with one more command. -/
def record (l : CommandLog) (c : Command) : CommandLog :=
  ⟨(if capacity ≤ l.size then l.commands.drop (capacity / 2) else l.commands) ++ [c]⟩

end CommandLog

end CopperRoute
