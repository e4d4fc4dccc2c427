import CopperRoute.Change.Basic

/-!
# Breaking a track

A track is broken at its board position nearest to a point.  The first half stays
the item it was; the second half is new copper.  At an end of the track there is
nothing to break.
-/

namespace CopperRoute.Board

/-- The changeset that breaks a track in two. -/
def splitSegment (b : Board) (id : ItemId) (p : Point) (allowLocked : Bool) :
    Checked (Option Changeset) := do
  match b.item? id with
  | none => return none
  | some i =>
    match i.shape with
    | .segment axis width =>
      let middle ← axis.nearestPoint p
      if middle = axis.start ∨ middle = axis.stop then return none
      return some {
        added := [⟨.segment ⟨middle, axis.stop⟩ width, i.net, i.layers⟩]
        modified := [{ i with shape := .segment ⟨axis.start, middle⟩ width }]
        removed := []
        allowLocked := allowLocked }
    | _ => return none

end CopperRoute.Board
