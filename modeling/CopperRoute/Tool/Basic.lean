import CopperRoute.Change.Basic
import CopperRoute.History
import CopperRoute.Options
import CopperRoute.Rules
import CopperRoute.Session.Basic
import CopperRoute.Sizing
import CopperRoute.Tool.Command

/-!
# The routing tool

The **tool** is a session in its host together with all that it works on: the
board, the engine's world, the rules, the tree that looks for anchors, the options
with their key bindings, the log of commands and the history of boards.

Rules and tree are given to a tool (`Tool.new`).  The program starts with the rules of
the net classes and a tree that finds the nearest anchors first (`Tool.launch`).

What all commands share is defined here.  `Tool.commit` is the only way by which
copper reaches the board: it keeps the board that was there before, loads the new
one into the engine and tells the host.  `Tool.refreshHead` asks the engine for
the head again; without an answer the last head stays.
-/

namespace CopperRoute

/-- The state of the tool. -/
structure Tool extends Interaction where
  board : Board
  world : World
  rules : RuleSet
  /-- How items are found by their anchors. -/
  search : TreeSearch
  options : Options
  bindings : ActionRegistry
  log : CommandLog
  history : History Board
  /-- The running operation shall be broken off before the next intent. -/
  cancelRequested : Bool

namespace Tool

/-- How many boards can be gone back to. -/
def historyCapacity : Nat := 200

/-- A tool on a board, at rest. -/
def new (board : Board) (world : World) (options : Options) (rules : RuleSet)
    (search : TreeSearch) (confirms : Bool) : Tool where
  session := Session.new options.routerMode
  host := Host.new confirms
  board := board
  world := world
  rules := rules
  search := search
  options := options
  bindings := ActionRegistry.ofTable options.keyBindings
  log := CommandLog.empty
  history := History.ofCapacity historyCapacity
  cancelRequested := false

/-- The tool that the program starts: its engine knows the board, and the rules of the board's
net classes come before the given ones. -/
def launch (board : Board) (options : Options) (rules : List Rule) (confirms : Bool) : Tool :=
  new board (some board) options (RuleSet.ofDesign board.design rules) TreeSearch.nearestFirst
    confirms

def requestCancel (t : Tool) : Tool := { t with cancelRequested := true }

def mapSession (t : Tool) (f : Session → Session) : Tool := { t with session := f t.session }

def mapHost (t : Tool) (f : Host → Host) : Tool := { t with host := f t.host }

def notify (t : Tool) (n : Notification) : Tool := t.mapHost fun h => h.notify n

def report (t : Tool) (e : RouterError) : Tool := t.mapHost fun h => h.report e

/-- The tool with the design settings of its board changed. -/
def mapDesign (t : Tool) (change : Design → Design) : Tool :=
  { t with board := { t.board with design := change t.board.design } }

/-- Load the board into the engine. -/
def syncWorld (t : Tool) : Tool := { t with world := some t.board }

def clearWorld (t : Tool) : Tool := { t with world := none }

/-- Take a changeset over into the board. -/
def commit (t : Tool) (c : Changeset) : Checked (Except CommitRejection CommitReport × Tool) := do
  match ← t.board.commit c with
  | .rejected reason => return (.error reason, t)
  | .untouched => return (.ok .nothing, t.notify (.committed 0 0 0))
  | .applied board report =>
    let history ← t.history.record t.board
    let t := { t with board := board, world := some board, history := history }
    return (.ok report, t.notify (.committed report.added.length report.modified report.removed))

/-- Ask the engine for the head again. -/
def refreshHead (t : Tool) : Checked Tool := do
  match t.session.request? with
  | none => return t
  | some r =>
    match ← t.world.route r with
    | .ok g => return t.mapSession fun s => s.mapRoute fun op => { op with head := some g }
    | .error _ => return t

/-- The fixed steps of a running route, if there are any. -/
def stagedChanges? (t : Tool) : Option Changeset :=
  (t.session.route?.map fun op => op.changeset none).filter fun c => !c.isEmpty

/-- Take over the fixed steps of a route that is about to be broken off. -/
def commitStaged (t : Tool) : Checked Tool := do
  match t.stagedChanges? with
  | none => return t
  | some c =>
    match ← t.commit c with
    | (.ok _, t) => return t.mapSession Session.recordCommit
    | (.error reason, t) => return t.report (.commitFailed reason)

/-- End the running operation: fixed steps are taken over, only the head is lost.
Says also whether an operation ran. -/
def stopOperation (t : Tool) : Checked (Tool × Bool) := do
  let t ← t.commitStaged
  let (i, stopped) := t.toInteraction.cancel
  return ({ t with toInteraction := i }, stopped)

/-- Make room for another operation. -/
def makeIdle (t : Tool) : Checked Tool := do
  if t.session.isIdle then return t else return (← t.stopOperation).1

end Tool

end CopperRoute
