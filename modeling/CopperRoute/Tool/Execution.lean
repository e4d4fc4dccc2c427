import CopperRoute.Tool.Editing
import CopperRoute.Tool.Sizing

/-!
# Executing commands

`Tool.execute` does what a command says; `Tool.handle` writes the command into
the log first.  Only `undo` and `redo` can be refused.
-/

namespace CopperRoute.Tool

/-- Do what a command says. -/
def execute (t : Tool) : Command → Checked (Tool × Option CommandRefusal)
  | .undo => return t.undo
  | .redo => return t.redo
  | .clearWorld => return (t.clearWorld, none)
  | .syncWorld => return (t.syncWorld, none)
  | .resetSession => return (t.mapSession Session.resetForActivation, none)
  | .trackCursor position => return (t.trackCursor position, none)
  | .requestViaTarget viaType => return (t.requestViaTarget viaType, none)
  | .selectLayerPair pair => return (t.selectLayerPair pair, none)
  | .startRouting position item => return (← t.startRouting position item, none)
  | .moveHead position item ortho => return (← t.moveHead position item ortho, none)
  | .fixRoute position item finish => return (← t.fixRoute position item finish, none)
  | .undoLastSegment => return (← t.undoLastSegment, none)
  | .flipPosture => return (← t.flipPosture, none)
  | .toggleRounding => return (← t.toggleRounding, none)
  | .setRouterMode mode => return (← t.setRouterMode mode, none)
  | .cancelOperation => return (← t.cancelOperation, none)
  | .placeVia viaType target => return (← t.placeVia viaType target, none)
  | .switchLayer command => return (← t.switchLayer command, none)
  | .setCustomTrackWidth width => return (← t.setCustomTrackWidth width, none)
  | .setCustomViaSize diameter drill => return (← t.setCustomViaSize diameter drill, none)
  | .setDiffPair width gap viaGap => return (← t.setDiffPair width gap viaGap, none)
  | .useNetClassSizes => return (← t.useNetClassSizes, none)
  | .startDrag items anchor mode => return (← t.startDrag items anchor mode, none)
  | .startFootprintDrag footprint anchor mode =>
    return (← t.startFootprintDrag footprint anchor mode, none)
  | .moveDrag position => return (← t.moveDrag position, none)
  | .fixDrag => return (← t.fixDrag, none)
  | .breakTrack position => return (← t.breakTrack position, none)

/-- Log a command and execute it. -/
def handle (t : Tool) (c : Command) : Checked (Tool × Option CommandRefusal) :=
  { t with log := t.log.record c }.execute c

end CopperRoute.Tool
