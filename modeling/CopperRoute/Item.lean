import CopperRoute.Geometry.Capsule
import CopperRoute.Layer
import CopperRoute.Sizes

/-!
# Copper

Everything that is routed is an **item**: a piece of copper with a shape, a net
and a range of layers.  A `Draft` is an item that the board does not know yet and
that has no identifier; `Draft.withId` makes it one.

* `Shape.anchors` are the points where other copper can connect.
* `Shape.outline` is the capsule that the copper fills.
* `Item.moveBy` moves an item; only its coordinates change.
-/

namespace CopperRoute

abbrev ItemId := UInt64
abbrev FootprintId := UInt64

/-- The number of a net; net `0` is no net. -/
abbrev NetCode := UInt32

/-- The form of a piece of copper. -/
inductive Shape
  /-- A straight track. -/
  | segment (axis : Segment) (width : UInt32)
  | via (position : Point) (diameter drill : UInt32) (type : ViaType)
  /-- A pad. -/
  | solid (position : Point) (size : UInt32)
  deriving DecidableEq, Repr, Inhabited

namespace Shape

def isSegment : Shape → Bool
  | segment .. => true
  | _ => false

def isVia : Shape → Bool
  | via .. => true
  | _ => false

/-- Half of a width or diameter. -/
def half (w : UInt32) : Float := w.toFloat / 2.0

def outline : Shape → Capsule
  | segment axis width => ⟨axis, half width⟩
  | via position diameter _ _ => Capsule.circle position (half diameter)
  | solid position size => Capsule.circle position (half size)

def anchors : Shape → List Point
  | segment axis _ => [axis.start, axis.stop]
  | via position .. => [position]
  | solid position _ => [position]

/-- The shape with every coordinate moved by `d`. -/
def moveBy (d : Point) : Shape → Checked Shape
  | segment axis width => do
    return segment ⟨← axis.start.moveBy d, ← axis.stop.moveBy d⟩ width
  | via position diameter drill type => do
    return via (← position.moveBy d) diameter drill type
  | solid position size => do return solid (← position.moveBy d) size

/-- The length of a track; other copper has none. -/
def trackLength : Shape → Float
  | segment axis _ => axis.length
  | _ => 0.0

end Shape

/-- A piece of copper on its way to the board. -/
structure Draft where
  shape : Shape
  net : NetCode
  layers : LayerRange
  deriving DecidableEq, Repr, Inhabited

/-- A piece of copper on the board. -/
structure Item where
  id : ItemId
  shape : Shape
  net : NetCode
  layers : LayerRange
  /-- A locked item changes only when that is confirmed. -/
  locked : Bool
  /-- The footprint that a pad belongs to. -/
  parent : Option FootprintId
  deriving DecidableEq, Repr, Inhabited

namespace Draft

def track (axis : Segment) (width : UInt32) (layer : LayerId) (net : NetCode) : Draft :=
  ⟨.segment axis width, net, LayerRange.single layer⟩

def via (position : Point) (diameter drill : UInt32) (type : ViaType) (pair : LayerPair)
    (net : NetCode) : Draft :=
  ⟨.via position diameter drill type, net, LayerRange.ofPair pair⟩

/-- The draft as an item of the board: unlocked, and part of no footprint. -/
def withId (d : Draft) (id : ItemId) : Item := ⟨id, d.shape, d.net, d.layers, false, none⟩

def outline (d : Draft) : Capsule := d.shape.outline

end Draft

namespace Item

def isSegment (i : Item) : Bool := i.shape.isSegment

def isVia (i : Item) : Bool := i.shape.isVia

def anchors (i : Item) : List Point := i.shape.anchors

def outline (i : Item) : Capsule := i.shape.outline

def moveBy (i : Item) (d : Point) : Checked Item := do
  return { i with shape := ← i.shape.moveBy d }

/-- The end of a track at `p`, if it has one there. -/
def endpointAt (i : Item) (p : Point) : Option Point :=
  match i.shape with
  | .segment axis _ => if axis.start = p ∨ axis.stop = p then some p else none
  | _ => none

end Item

/-- The component that pads belong to. -/
structure Footprint where
  id : FootprintId
  reference : String
  locked : Bool
  deriving DecidableEq, Repr, Inhabited

end CopperRoute
