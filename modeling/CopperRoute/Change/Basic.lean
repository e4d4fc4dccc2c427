import CopperRoute.Board
import CopperRoute.Errors

/-!
# Changing a board

Finished work reaches the board as a **changeset**: drafts to add, items to
modify, items to remove.  `Board.commit` takes a changeset over completely or
not at all.  First everything is checked (`Board.rejection?`); only if nothing is
wrong is anything applied: removals, then modifications in place, then
additions.  An empty changeset leaves the board untouched.
-/

namespace CopperRoute

/-- The changes of one operation. -/
structure Changeset where
  added : List Draft
  modified : List Item
  removed : List ItemId
  /-- Changes of locked items have been confirmed. -/
  allowLocked : Bool
  deriving DecidableEq, Repr, Inhabited

namespace Changeset

def empty : Changeset := ⟨[], [], [], false⟩

def isEmpty (c : Changeset) : Bool := c.added.isEmpty && c.modified.isEmpty && c.removed.isEmpty

end Changeset

/-- What a commit did: the new identifiers and two numbers of items. -/
structure CommitReport where
  added : List ItemId
  modified : Nat
  removed : Nat
  deriving DecidableEq, Repr, Inhabited

/-- The report of a commit that changed nothing. -/
def CommitReport.nothing : CommitReport := ⟨[], 0, 0⟩

/-- What became of a changeset. -/
inductive CommitOutcome
  /-- No board comes with a rejection: by the type of the outcome the old board stays. -/
  | rejected (reason : CommitRejection)
  /-- There was nothing to change. -/
  | untouched
  | applied (board : Board) (report : CommitReport)
  deriving DecidableEq, Repr

/-- What is wrong with a piece of copper as such. -/
def Shape.fault? : Shape → Option CommitRejection
  | .segment axis width =>
    if width = 0 then some .noWidth
    else if axis.start = axis.stop then some .noLength
    else none
  | .via _ diameter drill _ =>
    if drill = 0 ∨ diameter ≤ drill then some (.drillTooLarge drill diameter) else none
  | .solid .. => none

namespace Board

/-- The first layer of the range's ends that the board does not have. -/
def layerFault? (b : Board) (r : LayerRange) : Option CommitRejection :=
  ([r.first, r.last].find? fun l => !b.stackup.contains l).map .layerOutside

/-- Why a draft cannot be added. -/
def draftRejection? (b : Board) (d : Draft) : Option CommitRejection :=
  (b.layerFault? d.layers).or d.shape.fault?

/-- Why an item cannot be touched: it is not there, or it is locked. -/
def touchRejection? (b : Board) (allowLocked : Bool) (id : ItemId) : Option CommitRejection :=
  match b.item? id with
  | none => some (.unknownItem id)
  | some existing =>
    if existing.locked && !allowLocked then some (.lockedItem id) else none

/-- Why an item cannot be modified. -/
def modifyRejection? (b : Board) (c : Changeset) (i : Item) : Option CommitRejection :=
  (b.touchRejection? c.allowLocked i.id).or
    (if c.removed.contains i.id then some (.changedAndRemoved i.id) else none)

/-- The first thing that is wrong with a changeset. -/
def rejection? (b : Board) (c : Changeset) : Option CommitRejection :=
  (c.added.findSome? b.draftRejection?).or
    ((c.modified.findSome? (b.modifyRejection? c)).or
      (c.removed.findSome? (b.touchRejection? c.allowLocked)))

/-- Remove items one after the other, and count those that were there. -/
def removeAll (b : Board) (ids : List ItemId) : Board × Nat :=
  ids.foldl
    (fun (b, n) id => if (b.item? id).isSome then (b.remove id, n + 1) else (b, n))
    (b, 0)

/-- Replace items one after the other, and count those that were there. -/
def replaceAll (b : Board) (items : List Item) : Board × Nat :=
  items.foldl
    (fun (b, n) i =>
      match b.replace? i with
      | some b' => (b', n + 1)
      | none => (b, n))
    (b, 0)

/-- Add drafts one after the other, and list their identifiers. -/
def addAll (b : Board) : List Draft → Checked (Board × List ItemId)
  | [] => .ok (b, [])
  | d :: ds => do
    let (b, id) ← b.add d
    let (b, ids) ← b.addAll ds
    return (b, id :: ids)

/-- Take over a changeset completely or not at all.  Only `CommitOutcome.applied` gives another
board. -/
def commit (b : Board) (c : Changeset) : Checked CommitOutcome := do
  match b.rejection? c with
  | some reason => return .rejected reason
  | none =>
    if c.isEmpty then return .untouched
    let (b, removed) := b.removeAll c.removed
    let (b, modified) := b.replaceAll c.modified
    let (b, added) ← b.addAll c.added
    return .applied b ⟨added, modified, removed⟩

end Board

end CopperRoute
