import CopperRoute.Host
import CopperRoute.Session.Operation

/-!
# The routing session

The session is a state machine around the operation that runs.  `allowed` lists
its legal transitions; a `Cancelled` session becomes idle at once.  The last 64
transitions are kept as the **trail**.

The operation and the host belong together: an operation holds the host's edit
block from its start to its end.  An `Interaction` is a session with its host, and
every function that ends or replaces an operation also releases the block.
-/

namespace CopperRoute

inductive SessionState
  | idle
  | preparing
  | routing
  | dragging
  | fixing
  | cancelled
  deriving DecidableEq, Repr, Inhabited

/-- The legal transitions. -/
def SessionState.transitions : List (SessionState × SessionState) :=
  [(idle, preparing), (preparing, routing), (preparing, idle), (routing, fixing),
    (fixing, routing), (fixing, idle), (routing, cancelled), (idle, dragging),
    (dragging, fixing), (fixing, dragging), (dragging, cancelled), (cancelled, idle)]

/-- How many transitions are kept. -/
def trailCapacity : Nat := 64

structure Session where
  state : SessionState
  /-- The state to return to when a fix does not end the operation. -/
  fixOrigin : SessionState
  operation : Operation
  /-- The layer on which the next route starts, or on which the running one goes
  on. -/
  activeLayer : LayerId
  mode : RouterMode
  posture : Posture
  rounded : Bool
  /-- The last position of the pointer. -/
  cursor : Point
  /-- The sizes of the last route. -/
  savedSizes : Option Sizes
  /-- The via type for which a target layer was asked. -/
  pendingViaTarget : Option ViaType
  /-- The last operation ended without a commit. -/
  cancelled : Bool
  /-- The number of commits since the activation. -/
  committed : Nat
  /-- The last transitions, oldest first. -/
  trail : List (SessionState × SessionState)
  deriving Repr, Inhabited

namespace Session

def new (mode : RouterMode) : Session where
  state := .idle
  fixOrigin := .idle
  operation := .none
  activeLayer := LayerId.top
  mode := mode
  posture := .diagonalFirst
  rounded := false
  cursor := Point.zero
  savedSizes := none
  pendingViaTarget := none
  cancelled := false
  committed := 0
  trail := []

/-- A trail with one more transition; a full trail loses its oldest one. -/
def extendTrail (trail : List (SessionState × SessionState)) (t : SessionState × SessionState) :
    List (SessionState × SessionState) :=
  (if trailCapacity ≤ trail.length then trail.tail else trail) ++ [t]

def enter (s : Session) (next : SessionState) : Session :=
  { s with state := next, trail := extendTrail s.trail (s.state, next) }

def isIdle (s : Session) : Bool := s.state == .idle

def route? (s : Session) : Option RouteOp :=
  match s.operation with
  | .routing op => some op
  | _ => none

def drag? (s : Session) : Option DragOp :=
  match s.operation with
  | .dragging op => some op
  | _ => none

def isRouting (s : Session) : Bool := s.route?.isSome

def isDragging (s : Session) : Bool := s.drag?.isSome

/-- The session with the running route changed; nothing without a route. -/
def mapRoute (s : Session) (f : RouteOp → RouteOp) : Session :=
  match s.operation with
  | .routing op => { s with operation := .routing (f op) }
  | _ => s

/-- The question for the head of the running route. -/
def request? (s : Session) : Option RouteRequest :=
  s.route?.map fun op => op.request s.mode s.posture s.rounded

/-- Forget what happened before this activation. -/
def resetForActivation (s : Session) : Session :=
  { s with cancelled := false, committed := 0, pendingViaTarget := none }

def beginPrepare (s : Session) : Session := s.enter .preparing

/-- The start was refused. -/
def abortPrepare (s : Session) : Session := s.enter .idle

def beginFix (s : Session) : Session := { s with fixOrigin := s.state }.enter .fixing

/-- Go back to the operation after a fix that does not end it. -/
def resume (s : Session) : Session := s.enter s.fixOrigin

/-- Count a commit. -/
def recordCommit (s : Session) : Session :=
  { s with committed := s.committed + 1, cancelled := false }

/-- The tool was left while nothing ran. -/
def markExit (s : Session) : Session := { s with cancelled := true }

/-- The sizes to start the next route from, when this one ends. -/
def sizesToSave (s : Session) : Option Sizes :=
  match s.route? with
  | some op => some op.sizes
  | none => s.savedSizes

/-- The session behind a finished operation. -/
def finished (s : Session) (committed : Bool) : Session :=
  let layer := match s.route? with
    | some op => op.layer
    | none => s.activeLayer
  let s := { s with savedSizes := s.sizesToSave, activeLayer := layer, operation := .none }
  (if committed then s.recordCommit else s).enter .idle

/-- The session behind an operation broken off.  It counts as cancelled when
nothing was committed since the activation. -/
def brokenOff (s : Session) : Session :=
  let layer := match s.route?.bind RouteOp.via with
    | some pending => pending.fromLayer
    | none => s.activeLayer
  let s := { s with savedSizes := s.sizesToSave, activeLayer := layer, operation := .none }
  let s := s.enter .cancelled
  (if s.committed = 0 then { s with cancelled := true } else s).enter .idle

end Session

/-- A session at work in a host. -/
structure Interaction where
  session : Session
  host : Host
  deriving Repr, Inhabited

namespace Interaction

/-- The host after the running operation has let go of it. -/
def releasedHost (i : Interaction) : Host :=
  if i.session.operation.isNone then i.host else i.host.release

/-- Run a route.  The host's block was acquired for it; an operation that it
replaces lets go afterwards. -/
def startRouting (i : Interaction) (op : RouteOp) : Interaction where
  session := { i.session with activeLayer := op.layer, operation := .routing op }.enter .routing
  host := i.releasedHost

/-- Run a drag, likewise. -/
def startDrag (i : Interaction) (op : DragOp) : Interaction where
  session := { i.session with operation := .dragging op }.enter .dragging
  host := i.releasedHost

/-- End the operation after a fix. -/
def finish (i : Interaction) (committed : Bool) : Interaction where
  session := i.session.finished committed
  host := i.releasedHost

/-- Break the operation off; nothing when none runs. -/
def cancel (i : Interaction) : Interaction × Bool :=
  if i.session.operation.isNone then (i, false)
  else (⟨i.session.brokenOff, i.releasedHost⟩, true)

end Interaction

end CopperRoute
