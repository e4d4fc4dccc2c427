import CopperRoute.Board.Anchors
import CopperRoute.Design
import CopperRoute.Layer.Stackup

/-!
# Boards

A **board** holds the items in the order in which they came, the footprints, the
stackup with the layers that are enabled, and the design settings.  It also
keeps the identifier that the next new item gets.

* `Board.add` puts a draft at the end under the next identifier.
* `Board.replace?` and `Board.remove` change one item and leave the order of the
  others alone.
* `Board.ofFile` and `Board.toFile` convert between a board and what a file
  says about it.
* `Board.near` and `Board.itemAt` find items by their anchors, with the help of a search tree,
  and by their outlines.
-/

namespace CopperRoute

/-- What a file says about a board. -/
structure BoardFile where
  stackup : Stackup
  /-- The enabled layers; all of them when nothing is said. -/
  enabledLayers : Option (List LayerId)
  design : Design
  footprints : List Footprint
  items : List Item
  deriving DecidableEq, Repr, Inhabited

/-- The file that says nothing. -/
def BoardFile.standard : BoardFile := ⟨Stackup.standard, none, Design.standard, [], []⟩

/-- A board with its copper. -/
structure Board where
  items : List Item
  footprints : List Footprint
  stackup : Stackup
  enabledLayers : List LayerId
  design : Design
  nextId : ItemId
  deriving DecidableEq, Repr, Inhabited

namespace Board

/-- A board without copper. -/
def empty (stackup : Stackup) (design : Design) : Board where
  items := []
  footprints := []
  stackup := stackup
  enabledLayers := stackup.copperLayers
  design := design
  nextId := 1

def standard : Board := empty Stackup.standard Design.standard

def item? (b : Board) (id : ItemId) : Option Item := Keyed.find? Item.id id b.items

def footprint? (b : Board) (id : FootprintId) : Option Footprint :=
  Keyed.find? Footprint.id id b.footprints

/-- The pads of a footprint. -/
def itemsOf (b : Board) (footprint : FootprintId) : List Item :=
  b.items.filter fun i => i.parent == some footprint

/-- The board with a draft as its newest item, and that item's identifier. -/
def add (b : Board) (d : Draft) : Checked (Board × ItemId) := do
  let id := b.nextId
  let next ← idAfter id
  return ({ b with items := Keyed.put Item.id (d.withId id) b.items, nextId := next }, id)

/-- The board with another item under the same identifier, if there is one. -/
def replace? (b : Board) (i : Item) : Option Board :=
  if (b.item? i.id).isSome then some { b with items := Keyed.put Item.id i b.items } else none

/-- The board without the item. -/
def remove (b : Board) (id : ItemId) : Board :=
  { b with items := b.items.filter fun i => i.id != id }

/-- A footprint with a known identifier replaces the one that has it. -/
def addFootprint (b : Board) (f : Footprint) : Board :=
  { b with footprints := Keyed.put Footprint.id f b.footprints }

/-- Layers in ascending order, each once. -/
def sortLayers (layers : List LayerId) : List LayerId :=
  (layers.mergeSort fun a b => a ≤ b).eraseDups

/-- Enable exactly these layers; layers that the stackup does not contain are
left out. -/
def enableLayers (b : Board) (layers : List LayerId) : Board :=
  { b with enabledLayers := sortLayers (layers.filter b.stackup.contains) }

/-- The pair of layers that a via joins when nothing else is said. -/
def defaultPair (b : Board) : LayerPair := b.design.routeLayerPair.getD b.stackup.outerPair

/-- Take over one item of a file.  The next identifier stays above all items. -/
def load (b : Board) (i : Item) : Checked Board := do
  let after ← idAfter i.id
  return { b with items := Keyed.put Item.id i b.items, nextId := max b.nextId after }

def ofFile (f : BoardFile) : Checked Board :=
  let b := empty f.stackup f.design
  let b := match f.enabledLayers with
    | some layers => b.enableLayers layers
    | none => b
  f.items.foldlM load (f.footprints.foldl addFootprint b)

def toFile (b : Board) : BoardFile where
  stackup := b.stackup
  enabledLayers := some b.enabledLayers
  design := b.design
  footprints := b.footprints
  items := b.items

/-- The items with an anchor at most `radius` away from `p`, nearest first. -/
def near (search : TreeSearch) (b : Board) (p : Point) (radius : Float) : List Match :=
  (AnchorIndex.ofItems b.items).within search p radius

/-- An item under the pointer and the free space between the two. -/
structure Candidate where
  item : Item
  gap : Float

/-- Is this the better candidate?  Vias and pads come before tracks, then the
smaller gap decides. -/
def Candidate.precedes (c d : Candidate) : Bool :=
  if c.item.isSegment = d.item.isSegment then totalOrderKey c.gap < totalOrderKey d.gap
  else d.item.isSegment

/-- The first of the best candidates. -/
def Candidate.best (cs : List Candidate) : Option Candidate :=
  cs.foldl
    (fun best c =>
      match best with
      | none => some c
      | some b => if c.precedes b then some c else some b)
    none

/-- The items whose outline comes within `tolerance` of the point, on the given
layer or on any. -/
def candidates (b : Board) (p : Point) (layer : Option LayerId) (tolerance : Float) :
    Checked (List Candidate) := do
  let probe := Capsule.circle p 0.0
  let onLayer := b.items.filter fun i => layer.all i.layers.contains
  let measured ← onLayer.mapM fun i => return ⟨i, ← i.outline.gap probe⟩
  return measured.filter fun c => c.gap ≤ tolerance

/-- The item under the point. -/
def itemAt (b : Board) (p : Point) (layer : Option LayerId) (tolerance : Float) :
    Checked (Option Item) := do
  return (Candidate.best (← b.candidates p layer tolerance)).map Candidate.item

end Board

end CopperRoute
