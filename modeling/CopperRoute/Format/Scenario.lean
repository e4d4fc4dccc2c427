import CopperRoute.Format.Board
import CopperRoute.Format.Intent

/-!
# Scenarios and summaries

A **scenario** is a board, further rules, and the intents to be replayed on it.
The **summary** tells how a replay ended.
-/

namespace CopperRoute

open Data

structure Scenario where
  board : BoardFile
  /-- Rules that come after those of the net classes. -/
  rules : List Rule
  intents : List Intent

structure Summary where
  state : SessionState
  /-- How often something was committed since the activation. -/
  committed : Nat
  cancelled : Bool
  /-- How many commands are in the log. -/
  commands : Nat
  errors : List RouterError
  board : BoardFile

instance : FromValue Scenario where
  fromValue? how v := do
    let r ← v.record? how ["board", "rules", "intents"]
    return ⟨← r.get "board", ← r.getD "rules" [], ← r.getD "intents" []⟩

instance : Named SessionState where
  all := [.idle, .preparing, .routing, .dragging, .fixing, .cancelled]
  name
    | .idle => "Idle"
    | .preparing => "Preparing"
    | .routing => "Routing"
    | .dragging => "Dragging"
    | .fixing => "Fixing"
    | .cancelled => "Cancelled"

instance : ToValue Summary where
  toValue s := .table [
    ("state", toValue s.state),
    ("committed", toValue s.committed),
    ("cancelled", toValue s.cancelled),
    ("commands", toValue s.commands),
    ("errors", toValue (s.errors.map RouterError.message)),
    ("board", toValue s.board)]

end CopperRoute
