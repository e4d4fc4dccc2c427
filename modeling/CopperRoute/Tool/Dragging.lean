import CopperRoute.Tool.Basic

/-!
# Drag commands

A drag begins with a selection of items, or with a footprint and all its pads.
Locked items are dragged only when that is confirmed.  A move without a solution
leaves the display as it is, and is reported once until a move succeeds again.
-/

namespace CopperRoute.Tool

/-- Ask whether locked items may change, if any are concerned. -/
def mayChange (t : Tool) (locked : Bool) (q : Question) : Tool × Bool :=
  if !locked || t.options.autoConfirmLocked then (t, true)
  else
    let (host, confirmed) := t.host.ask q
    ({ t with host := host }, confirmed)

/-- The net of all these items, if it is one. -/
def commonNet (items : List Item) : Option NetCode :=
  (items.head?.map Item.net).filter fun net => net != 0 && items.all fun i => i.net == net

/-- Begin a drag, when locked items among them are released. -/
def beginDrag (t : Tool) (grabbed : List Item) (anchor : Point) (mode : DragMode)
    (locked : Bool) : Tool :=
  let (t, confirmed) := t.mayChange locked .dragLocked
  if !confirmed then t
  else
    let drag := Drag.start grabbed anchor mode t.session.mode
    let t := t.mapHost fun h => h.acquire (commonNet grabbed)
    let t := t.mapSession fun s => { s with cursor := anchor }
    { t with toInteraction := t.toInteraction.startDrag (DragOp.new drag locked) }

/-- Drag items.  Identifiers that the board does not know are left out. -/
def startDrag (t : Tool) (ids : List ItemId) (anchor : Point) (mode : DragMode) : Checked Tool := do
  let t ← t.makeIdle
  match ids.filterMap t.board.item? with
  | [] => return t.report (.inputRejected .nothingToDrag)
  | items =>
    let grabbed := cornerHandle items
    return t.beginDrag grabbed anchor mode (grabbed.any Item.locked)

/-- Drag a footprint.  Its pads move by any angle. -/
def startFootprintDrag (t : Tool) (id : FootprintId) (anchor : Point) (mode : DragMode) :
    Checked Tool := do
  let t ← t.makeIdle
  match t.board.footprint? id with
  | none => return t.report (.inputRejected (.unknownFootprint id))
  | some f =>
    match t.board.itemsOf id with
    | [] => return t.report (.inputRejected (.footprintWithoutPads f.reference))
    | pads =>
      return t.beginDrag pads anchor (mode.union .freeAngle) (f.locked || pads.any Item.locked)

/-- Move the drag to a point. -/
def moveDrag (t : Tool) (position : Point) : Checked Tool := do
  let t := t.mapSession fun s => { s with cursor := position }
  match t.session.drag? with
  | none => return t
  | some op =>
    match ← op.drag.moveTo t.world position with
    | .ok drag =>
      let op := { op with drag := drag, blocked := false }
      return t.mapSession fun s => { s with operation := .dragging op }
    | .error e =>
      if op.blocked then return t
      let op := { op with blocked := true }
      return (t.mapSession fun s => { s with operation := .dragging op }).report e

/-- Take over what the drag displays. -/
def fixDrag (t : Tool) : Checked Tool := do
  match t.session.drag? with
  | none => return t
  | some op =>
    let changes := op.drag.changeset op.allowLocked
    let t := t.mapSession Session.beginFix
    if changes.isEmpty then return { t with toInteraction := t.toInteraction.finish false }
    match ← t.commit changes with
    | (.ok _, t) => return { t with toInteraction := t.toInteraction.finish true }
    | (.error reason, t) => return (t.report (.commitFailed reason)).mapSession Session.resume

end CopperRoute.Tool
