import CopperRoute.Item
import CopperRoute.Keyed

/-!
# Finding items by their anchors

An item can be found by the points where it connects.  The **anchors** of the items are listed
item by item, in their order, and an **index** of them keeps the points and their owners.

Which points lie in a circle is found by a search tree.  It finds entries of the index in an
order that is its own; among points that are equally far away, it alone decides which comes
first.  So only its answer is known here (`TreeSearch`), and all that looks for items takes the
search as an argument.

* `AnchorIndex.within` lists the items with an anchor in a circle, each once, with
  the distance of its nearest anchor, nearest item first.
* `AnchorIndex.nearest` is the first of the nearest anchors.
* `TreeSearch.nearestFirst` is a search that asks every point.
-/

namespace CopperRoute

/-- A point where an item connects. -/
structure Anchor where
  owner : ItemId
  point : Point
  deriving DecidableEq, Repr, Inhabited

/-- An item found by a search, and how far away it is. -/
structure Match where
  id : ItemId
  distance : Float
  deriving Repr, Inhabited

namespace Anchor

/-- All anchors of the items, in their order. -/
def ofItems (items : List Item) : List Anchor :=
  items.flatMap fun i => i.anchors.map fun p => ⟨i.id, p⟩

/-- The square of the distance to a point. -/
def distanceSquared (a : Anchor) (p : Point) : Float :=
  let dx := a.point.x.toFloat - p.x.toFloat
  let dy := a.point.y.toFloat - p.y.toFloat
  dx * dx + dy * dy

end Anchor

/-- An entry that a tree has found, and the square of its distance. -/
structure TreeHit where
  entry : Nat
  squared : Float
  deriving Repr, Inhabited

/-- What the tree of a list of points finds around a point: entries whose squared distance is
at most the bound, in an order of its own. -/
abbrev TreeSearch := List Point → Point → Float → List TreeHit

namespace TreeSearch

/-- All entries within the bound, one after the other. -/
def scan : TreeSearch := fun points p bound =>
  points.zipIdx.filterMap fun (q, entry) =>
    let squared := Anchor.distanceSquared ⟨0, q⟩ p
    if squared ≤ bound then some ⟨entry, squared⟩ else none

/-- A search is **exact** when it finds what a scan finds, in whatever order. -/
def Exact (search : TreeSearch) : Prop :=
  ∀ points p bound, (search points p bound).Perm (scan points p bound)

/-- A search that gives the nearest entries first, and equally near ones as they are listed. -/
def nearestFirst : TreeSearch := fun points p bound =>
  (scan points p bound).mergeSort fun h h' => totalOrderKey h.squared ≤ totalOrderKey h'.squared

end TreeSearch

/-- The anchors of a board: the points that the tree holds, and for every entry its owner. -/
structure AnchorIndex where
  points : List Point
  owners : List ItemId
  deriving DecidableEq, Repr, Inhabited

namespace AnchorIndex

def empty : AnchorIndex := ⟨[], []⟩

/-- The index of all anchors of the items. -/
def ofItems (items : List Item) : AnchorIndex where
  points := (Anchor.ofItems items).map Anchor.point
  owners := (Anchor.ofItems items).map Anchor.owner

/-- Whose anchor the tree has found, and how far away it is. -/
def match? (index : AnchorIndex) (hit : TreeHit) : Option Match :=
  index.owners[hit.entry]?.map fun owner => ⟨owner, hit.squared.sqrt⟩

/-- Takes one more hit of an item: a nearer one counts instead of the one before. -/
def merge (found : List Match) (m : Match) : List Match :=
  match Keyed.find? Match.id m.id found with
  | some before => if m.distance < before.distance then Keyed.put Match.id m found else found
  | none => found ++ [m]

/-- The items with an anchor at most `radius` away from `p`, each once, nearest first.  A radius
with a negative sign, `-0.0` included, reaches nothing. -/
def within (search : TreeSearch) (index : AnchorIndex) (p : Point) (radius : Float) :
    List Match :=
  if index.owners.isEmpty ∨ radius.toBits.toNat ≥ signBit then []
  else
    let hits := (search index.points p (radius * radius)).filterMap index.match?
    (hits.foldl merge []).mergeSort fun m n => totalOrderKey m.distance ≤ totalOrderKey n.distance

/-- The nearer one of two hits, the earlier one if they are equally near. -/
def nearer (best : Option TreeHit) (hit : TreeHit) : Option TreeHit :=
  match best with
  | none => some hit
  | some b => if hit.squared < b.squared then some hit else some b

/-- The item of a nearest anchor, wherever it is: the first one that the tree finds. -/
def nearest (search : TreeSearch) (index : AnchorIndex) (p : Point) : Option Match :=
  ((search index.points p (1.0 / 0.0)).foldl nearer none).bind index.match?

end AnchorIndex

end CopperRoute
