import CopperRoute.Board

/-!
# Boards as they are kept

A board is asked for its items by identifier and by place far more often than it changes.  So
it is kept as a **store**: the items and footprints in maps, each under a key of its own, and an
**index** of all anchors that is built when the items change.

* `BoardEdit` is one change of a board, and `Board.edit` what it makes of the board.
* `BoardStore` keeps a board, and `BoardStore.board` is what it keeps.
-/

namespace CopperRoute

/-- One change of a board. -/
inductive BoardEdit
  | add (d : Draft)
  | replace (i : Item)
  | remove (id : ItemId)
  | addFootprint (f : Footprint)
  | enableLayers (layers : List LayerId)
  | redesign (design : Design)
  /-- Builds the index again; nothing else changes. -/
  | reindex
  deriving DecidableEq, Repr, Inhabited

namespace Board

/-- The board after a change.  Items that it does not know are neither replaced nor
removed. -/
def edit (b : Board) : BoardEdit → Checked Board
  | .add d => do return (← b.add d).1
  | .replace i => .ok ((b.replace? i).getD b)
  | .remove id => .ok (b.remove id)
  | .addFootprint f => .ok (b.addFootprint f)
  | .enableLayers layers => .ok (b.enableLayers layers)
  | .redesign design => .ok { b with design := design }
  | .reindex => .ok b

/-- The board after several changes. -/
def editAll (b : Board) (es : List BoardEdit) : Checked Board := es.foldlM edit b

end Board

/-- A board as it is kept. -/
structure BoardStore where
  items : List (ItemId × Item)
  footprints : List (FootprintId × Footprint)
  stackup : Stackup
  enabledLayers : List LayerId
  design : Design
  index : AnchorIndex
  nextId : ItemId
  deriving DecidableEq, Repr, Inhabited

namespace BoardStore

/-- The board that is kept. -/
def board (s : BoardStore) : Board where
  items := s.items.map Prod.snd
  footprints := s.footprints.map Prod.snd
  stackup := s.stackup
  enabledLayers := s.enabledLayers
  design := s.design
  nextId := s.nextId

def empty (stackup : Stackup) (design : Design) : BoardStore where
  items := []
  footprints := []
  stackup := stackup
  enabledLayers := stackup.copperLayers
  design := design
  index := AnchorIndex.empty
  nextId := 1

/-- The index is built from the items that are there. -/
def reindex (s : BoardStore) : BoardStore := { s with index := AnchorIndex.ofItems s.board.items }

def add (s : BoardStore) (d : Draft) : Checked (BoardStore × ItemId) := do
  let id := s.nextId
  let next ← idAfter id
  let items := Keyed.put Prod.fst (id, d.withId id) s.items
  return ({ s with items := items, nextId := next }.reindex, id)

/-- Replaces the item with the same identifier, if there is one. -/
def replace (s : BoardStore) (i : Item) : BoardStore × Bool :=
  match Keyed.find? Prod.fst i.id s.items with
  | some slot => ({ s with items := Keyed.put Prod.fst (slot.1, i) s.items }.reindex, true)
  | none => (s, false)

/-- Removes an item and gives it back. -/
def remove (s : BoardStore) (id : ItemId) : BoardStore × Option Item :=
  match Keyed.find? Prod.fst id s.items with
  | some slot =>
    ({ s with items := s.items.filter fun e => e.1 != id }.reindex, some slot.2)
  | none => (s, none)

def addFootprint (s : BoardStore) (f : Footprint) : BoardStore :=
  { s with footprints := Keyed.put Prod.fst (f.id, f) s.footprints }

def enableLayers (s : BoardStore) (layers : List LayerId) : BoardStore :=
  { s with enabledLayers := Board.sortLayers (layers.filter s.stackup.contains) }

/-- The store after a change. -/
def edit (s : BoardStore) : BoardEdit → Checked BoardStore
  | .add d => do return (← s.add d).1
  | .replace i => .ok (s.replace i).1
  | .remove id => .ok (s.remove id).1
  | .addFootprint f => .ok (s.addFootprint f)
  | .enableLayers layers => .ok (s.enableLayers layers)
  | .redesign design => .ok { s with design := design }
  | .reindex => .ok s.reindex

/-- The store after several changes. -/
def editAll (s : BoardStore) (es : List BoardEdit) : Checked BoardStore := es.foldlM edit s

/-- Takes over one item of a file; the index waits until all are there. -/
def load (s : BoardStore) (i : Item) : Checked BoardStore := do
  let after ← idAfter i.id
  return { s with items := Keyed.put Prod.fst (i.id, i) s.items, nextId := max s.nextId after }

def ofFile (f : BoardFile) : Checked BoardStore := do
  let s := empty f.stackup f.design
  let s := match f.enabledLayers with
    | some layers => s.enableLayers layers
    | none => s
  return (← f.items.foldlM load (f.footprints.foldl addFootprint s)).reindex

def toFile (s : BoardStore) : BoardFile where
  stackup := s.stackup
  enabledLayers := some s.enabledLayers
  design := s.design
  footprints := s.footprints.map Prod.snd
  items := s.items.map Prod.snd

/-- The items with an anchor at most `radius` away from `p`, nearest first, as the index
knows them. -/
def near (search : TreeSearch) (s : BoardStore) (p : Point) (radius : Float) : List Match :=
  s.index.within search p radius

/-- The item under the point; every outline is measured. -/
def itemAt (s : BoardStore) (p : Point) (layer : Option LayerId) (tolerance : Float) :
    Checked (Option Item) :=
  s.board.itemAt p layer tolerance

end BoardStore

end CopperRoute
