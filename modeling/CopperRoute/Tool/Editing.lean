import CopperRoute.Change.Split
import CopperRoute.Tool.Dragging

/-!
# Editing commands

What changes the board without an operation: breaking a track, and going back
and forth in the history.  Both need an idle session.  Going back or forth while
an operation runs is **refused**, which the caller is told; the engine keeps its
world until it is synchronised.
-/

namespace CopperRoute

/-- Why a command is refused. -/
inductive CommandRefusal
  | undoWhileRunning
  | redoWhileRunning
  deriving DecidableEq, Repr, Inhabited

def CommandRefusal.message : CommandRefusal → String
  | undoWhileRunning => "Undo während einer laufenden Operation"
  | redoWhileRunning => "Redo während einer laufenden Operation"

namespace Tool

/-- The item under the pointer, on the given layer if there is one there. -/
def itemUnder (t : Tool) (position : Point) (layer : Option LayerId) : Checked (Option Item) := do
  let tolerance := t.options.tolerance
  match layer with
  | none => t.board.itemAt position none tolerance
  | some _ =>
    match ← t.board.itemAt position layer tolerance with
    | some i => return some i
    | none => t.board.itemAt position none tolerance

/-- Break the track under the pointer. -/
def breakTrack (t : Tool) (position : Point) : Checked Tool := do
  if !t.session.isIdle then return t
  match (← t.itemUnder position (some t.session.activeLayer)).filter Item.isSegment with
  | none => return t.report (.inputRejected .noSegmentHere)
  | some i =>
    let (t, confirmed) := t.mayChange i.locked .breakLocked
    if !confirmed then return t
    match ← t.board.splitSegment i.id position i.locked with
    | none => return t
    | some changes =>
      match ← t.commit changes with
      | (.ok _, t) => return t
      | (.error reason, t) => return t.report (.commitFailed reason)

/-- Go back to the board before the last commit. -/
def undo (t : Tool) : Tool × Option CommandRefusal :=
  if !t.session.isIdle then (t, some .undoWhileRunning)
  else
    match t.history.undo t.board with
    | some (board, history) => ({ t with board := board, history := history }, none)
    | none => (t, none)

/-- Go forward to the board before the last undo. -/
def redo (t : Tool) : Tool × Option CommandRefusal :=
  if !t.session.isIdle then (t, some .redoWhileRunning)
  else
    match t.history.redo t.board with
    | some (board, history) => ({ t with board := board, history := history }, none)
    | none => (t, none)

end Tool

end CopperRoute
