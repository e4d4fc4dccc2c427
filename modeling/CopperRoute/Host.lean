import CopperRoute.Errors

/-!
# The host editor

The tool works inside a host editor.  While an operation runs it holds an **edit
block**, which keeps the host from changing the board, together with automatic
panning and the cursor; the routed net is highlighted.  All of it is acquired
and released together (`Host.acquire`, `Host.release`).

The host is modelled by everything it was told, in order, by the depth of the
edit block, and by its answer to questions.
-/

namespace CopperRoute

/-- What the user is asked. -/
inductive Question
  | dragLocked
  | breakLocked
  | other (text : String)
  deriving DecidableEq, Repr, Inhabited

def Question.message : Question → String
  | dragLocked => "Die Auswahl enthält gesperrte Items. Trotzdem ziehen?"
  | breakLocked => "Das Segment ist gesperrt. Trotzdem auftrennen?"
  | other text => text

/-- What the user is told without anything being wrong. -/
inductive Hint
  | viaOnlyWhileRouting
  | chooseViaTarget
  | other (text : String)
  deriving DecidableEq, Repr, Inhabited

def Hint.message : Hint → String
  | viaOnlyWhileRouting => "Vias können nur beim Routen gesetzt werden"
  | chooseViaTarget => "Ziel-Layer für die Via wählen"
  | other text => text

inductive Notification
  | error (e : RouterError)
  /-- The sizes in force have changed. -/
  | sizesChanged
  /-- Copper has reached the board. -/
  | committed (added modified removed : Nat)
  | info (hint : Hint)
  deriving DecidableEq, Repr, Inhabited

/-- One thing that the host is told. -/
inductive HostEvent
  | editBlock (held : Bool)
  | autoPan (on : Bool)
  | cursorCapture (on : Bool)
  | highlight (net : Option NetCode)
  | previewCleared
  | asked (q : Question)
  | notified (n : Notification)
  deriving DecidableEq, Repr, Inhabited

structure Host where
  /-- Everything the host was told, oldest first. -/
  events : List HostEvent
  /-- How many operations hold the edit block. -/
  blockDepth : Int
  /-- The answer to the next questions. -/
  confirms : Bool
  deriving DecidableEq, Repr, Inhabited

namespace Host

/-- A host that has been told nothing. -/
def new (confirms : Bool) : Host := ⟨[], 0, confirms⟩

def tell (h : Host) (events : List HostEvent) : Host := { h with events := h.events ++ events }

def notify (h : Host) (n : Notification) : Host := h.tell [.notified n]

def report (h : Host) (e : RouterError) : Host := h.notify (.error e)

/-- Ask the user. -/
def ask (h : Host) (q : Question) : Host × Bool := (h.tell [.asked q], h.confirms)

/-- Take the edit block, panning and the cursor, and highlight a net. -/
def acquire (h : Host) (net : Option NetCode) : Host :=
  let h := h.tell [.editBlock true, .autoPan true, .cursorCapture true]
  let h := if net.isSome then h.tell [.highlight net] else h
  { h with blockDepth := h.blockDepth + 1 }

/-- Give everything back, in the opposite order. -/
def release (h : Host) : Host :=
  let h := h.tell [.previewCleared, .highlight none, .cursorCapture false, .autoPan false,
    .editBlock false]
  { h with blockDepth := h.blockDepth - 1 }

def blockHeld (h : Host) : Bool := 0 < h.blockDepth

/-- Everything the host was notified of. -/
def notifications (h : Host) : List Notification :=
  h.events.filterMap fun
    | .notified n => some n
    | _ => none

/-- All errors that were reported. -/
def errors (h : Host) : List RouterError :=
  h.notifications.filterMap fun
    | .error e => some e
    | _ => none

end Host

end CopperRoute
