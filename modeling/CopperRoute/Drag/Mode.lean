import CopperRoute.Item

/-!
# How items are dragged

A **drag mode** is a set of flags.  Free angles win: without that flag tracks
keep their direction and everything else moves along the eight directions.

When the user grabs a corner, a few items lie under the pointer at once.
`cornerHandle` reduces such a selection to the one item that carries the corner.
-/

namespace CopperRoute

/-- A set of flags, one bit each. -/
structure DragMode where
  bits : UInt8
  deriving DecidableEq, Repr, Inhabited

namespace DragMode

/-- Every kind of item may be dragged. -/
def any : DragMode := ⟨1⟩

/-- Items move by any angle. -/
def freeAngle : DragMode := ⟨2⟩

/-- Tracks keep their direction. -/
def fortyFive : DragMode := ⟨4⟩

def union (m n : DragMode) : DragMode := ⟨m.bits ||| n.bits⟩

/-- Does `m` have all flags of `n`? -/
def contains (m n : DragMode) : Bool := m.bits &&& n.bits == n.bits

def isFreeAngle (m : DragMode) : Bool := m.contains freeAngle

def standard : DragMode := any.union fortyFive

end DragMode

/-- Is this a plain corner: at most two tracks and one via of one net that meet
in a point? -/
def isCorner (items : List Item) : Bool :=
  match items with
  | [] => false
  | first :: _ =>
    (items.length == 2 || items.length == 3) &&
      (items.filter Item.isSegment).length ≤ 2 &&
      (items.filter Item.isVia).length ≤ 1 &&
      (items.all fun i => i.isSegment || i.isVia) &&
      (items.all fun i => i.net == first.net) &&
      first.anchors.any fun p => items.all fun i => i.anchors.contains p

/-- The selection, or of a plain corner only its via, or else its first track. -/
def cornerHandle (items : List Item) : List Item :=
  if isCorner items then ((items.find? Item.isVia).or items.head?).toList else items

end CopperRoute
