import CopperRoute.Drag.Mode
import CopperRoute.Keys.Registry
import CopperRoute.Path.Request

/-!
# Options

What the user can set: how the router treats obstacles, how items are dragged,
whether locked items are released without asking, how near is near enough, and
what the keys do.
-/

namespace CopperRoute

structure Options where
  routerMode : RouterMode
  dragMode : DragMode
  /-- Change locked items without asking. -/
  autoConfirmLocked : Bool
  /-- How far from the pointer an item is still meant, in nanometres. -/
  snapRadius : UInt32
  /-- Chords and actions, in order. -/
  keyBindings : List (String × String)
  deriving DecidableEq, Repr, Inhabited

namespace Options

def standardBindings : List (String × String) := [
    ("V", "PlaceThroughVia"),
    ("Ctrl+V", "PlaceBlindVia"),
    ("Ctrl+Shift+V", "PlaceMicrovia"),
    ("Alt+<", "SelectLayerAndPlaceThroughVia"),
    ("Alt+V", "SelectLayerAndPlaceBlindVia"),
    ("+", "LayerNext"),
    ("-", "LayerPrev"),
    ("PgUp", "LayerTop"),
    ("PgDn", "LayerBottom"),
    ("Backspace", "UndoLastSegment"),
    ("End", "EndTrack"),
    ("/", "SwitchPosture"),
    ("Ctrl+/", "SwitchRounding"),
    ("D", "DragFortyFive"),
    ("G", "DragFreeAngle"),
    ("Shift+B", "BreakTrack"),
    ("Escape", "Cancel")]

def standard : Options where
  routerMode := .walkaround
  dragMode := DragMode.standard
  autoConfirmLocked := false
  snapRadius := 250000
  keyBindings := standardBindings

/-- Do two options say the same?  The order of the key bindings does not matter. -/
def agrees (o p : Options) : Bool :=
  { o with keyBindings := [] } == { p with keyBindings := [] } &&
    o.keyBindings.isPerm p.keyBindings

/-- The snap radius as a distance. -/
def tolerance (o : Options) : Float := o.snapRadius.toFloat

end Options

end CopperRoute
