import CopperRoute.Tool.Execution

/-!
# Intents

An **intent** is what the user or the host wants, without regard to what the tool
is doing: the pointer moved, a key was pressed, the model changed.
`Tool.commandsFor` turns an intent into commands according to the state the tool
is in, and `Tool.handleIntent` handles them.

A pending request to cancel is taken up before the next intent.
-/

namespace CopperRoute

/-- What the user or the host wants. -/
inductive Intent
  /-- The pointer moved; with `ctrl` the head keeps to right angles. -/
  | motion (position : Point) (ctrl : Bool)
  /-- A click; `shift` ends the route, `ctrl` drags what is under the pointer. -/
  | click (position : Point) (shift ctrl : Bool)
  /-- A double click ends the route. -/
  | doubleClick (position : Point)
  | keyPress (chord : String)
  | cancel
  | activate
  | deactivate
  | placeVia (viaType : ViaType) (target : Option LayerId)
  /-- The answer to the question for a target layer. -/
  | viaTargetSelected (layer : LayerId)
  | switchLayer (command : LayerCommand)
  | selectLayerPair (pair : LayerPair)
  | setRouterMode (mode : RouterMode)
  | setCustomTrackWidth (width : UInt32)
  | setCustomViaSize (diameter drill : UInt32)
  | setDiffPair (width gap viaGap : UInt32)
  | useNetClassSizes
  | dragSelection (items : List ItemId) (anchor : Point) (freeAngle : Bool)
  | dragFootprint (footprint : FootprintId) (anchor : Point)
  | breakTrack (position : Point)
  | undo
  | redo
  /-- The host changed the board. -/
  | modelChanged
  deriving DecidableEq, Repr, Inhabited

namespace Tool

/-- The item under the pointer, on the given layer if there is one there. -/
def pick (t : Tool) (position : Point) (layer : Option LayerId) : Checked (Option ItemId) := do
  return (← t.itemUnder position layer).map Item.id

/-- What a drag at the pointer takes hold of: all items that connect there, or
else the item that lies there. -/
def pickForDrag (t : Tool) (position : Point) : Checked (List ItemId) := do
  match t.board.near t.search position t.options.tolerance with
  | [] => return (← t.pick position none).toList
  | near => return near.map Match.id

/-- The layer on which a click looks for copper. -/
def headLayer (t : Tool) : LayerId :=
  (t.session.route?.map RouteOp.layer).getD t.session.activeLayer

/-- Fix the route at a point, on the copper that lies there. -/
def fixAt (t : Tool) (position : Point) (finish : Bool) : Checked (List Command) := do
  return [.fixRoute position (← t.pick position (some t.headLayer)) finish]

/-- Drag what is under the pointer, when nothing runs. -/
def dragAtCursor (t : Tool) (mode : DragMode) : Checked (List Command) := do
  if !t.session.isIdle then return []
  let anchor := t.session.cursor
  return [.startDrag (← t.pickForDrag anchor) anchor mode]

def anyFortyFive : DragMode := DragMode.any.union .fortyFive

def anyFreeAngle : DragMode := DragMode.any.union .freeAngle

/-- What a key does. -/
def commandsForAction (t : Tool) : RouterAction → Checked (List Command)
  | .placeThroughVia => return [.placeVia .through none]
  | .placeBlindVia => return [.placeVia .blindBuried none]
  | .placeMicrovia => return [.placeVia .microvia none]
  | .selectLayerAndPlaceThroughVia => return [.requestViaTarget .through]
  | .selectLayerAndPlaceBlindVia => return [.requestViaTarget .blindBuried]
  | .layerNext => return [.switchLayer .next]
  | .layerPrev => return [.switchLayer .prev]
  | .layerTop => return [.switchLayer .top]
  | .layerBottom => return [.switchLayer .bottom]
  | .undoLastSegment => return if t.session.isRouting then [.undoLastSegment] else []
  | .endTrack => if t.session.isRouting then t.fixAt t.session.cursor true else return []
  | .switchPosture => return [.flipPosture]
  | .switchRounding => return [.toggleRounding]
  | .dragFortyFive => t.dragAtCursor anyFortyFive
  | .dragFreeAngle => t.dragAtCursor anyFreeAngle
  | .breakTrack => return [.breakTrack t.session.cursor]
  | .cancel => return [.cancelOperation]

/-- End what runs, if anything does. -/
def endRunning (t : Tool) : List Command := if t.session.isIdle then [] else [.cancelOperation]

/-- A click: it continues what runs, or else begins a route or a drag. -/
def commandsForClick (t : Tool) (position : Point) (shift ctrl : Bool) :
    Checked (List Command) := do
  if t.session.isRouting then t.fixAt position shift
  else if t.session.isDragging then return [.fixDrag]
  else if ctrl then
    return [.startDrag (← t.pick position none).toList position t.options.dragMode]
  else return [.startRouting position (← t.pick position (some t.session.activeLayer))]

/-- A movement of the pointer. -/
def commandsForMotion (t : Tool) (position : Point) (ctrl : Bool) : Checked (List Command) := do
  if t.session.isRouting then
    return [.moveHead position (← t.pick position (some t.headLayer)) ctrl]
  else if t.session.isDragging then return [.moveDrag position]
  else return [.trackCursor position]

/-- The commands that do what an intent wants. -/
def commandsFor (t : Tool) : Intent → Checked (List Command)
  | .motion position ctrl => t.commandsForMotion position ctrl
  | .click position shift ctrl => t.commandsForClick position shift ctrl
  | .doubleClick position => if t.session.isRouting then t.fixAt position true else return []
  | .keyPress chord =>
    match t.bindings.resolve chord with
    | some action => t.commandsForAction action
    | none => return []
  | .cancel => return [.cancelOperation]
  | .activate => return t.endRunning ++ [.resetSession, .syncWorld]
  | .deactivate => return t.endRunning
  | .placeVia viaType target => return [.placeVia viaType target]
  | .viaTargetSelected layer =>
    match t.session.pendingViaTarget with
    | some viaType => return [.placeVia viaType (some layer)]
    | none => return []
  | .switchLayer command => return [.switchLayer command]
  | .selectLayerPair pair => return [.selectLayerPair pair]
  | .setRouterMode mode => return [.setRouterMode mode]
  | .setCustomTrackWidth width => return [.setCustomTrackWidth width]
  | .setCustomViaSize diameter drill => return [.setCustomViaSize diameter drill]
  | .setDiffPair width gap viaGap => return [.setDiffPair width gap viaGap]
  | .useNetClassSizes => return [.useNetClassSizes]
  | .dragSelection items anchor freeAngle =>
    return [.startDrag items anchor (if freeAngle then anyFreeAngle else t.options.dragMode)]
  | .dragFootprint footprint anchor =>
    return [.startFootprintDrag footprint anchor t.options.dragMode]
  | .breakTrack position => return [.breakTrack position]
  | .undo => return t.endRunning ++ [.clearWorld, .undo, .syncWorld]
  | .redo => return t.endRunning ++ [.clearWorld, .redo, .syncWorld]
  | .modelChanged => return t.endRunning ++ [.syncWorld]

/-- What became of an intent. -/
structure IntentOutcome where
  tool : Tool
  /-- The commands that were handled, a refused one last. -/
  commands : List Command
  refusal : Option CommandRefusal

/-- Handle commands in order, up to the first one that is refused. -/
def handleAll (t : Tool) : List Command → Checked IntentOutcome
  | [] => return ⟨t, [], none⟩
  | c :: cs => do
    match ← t.handle c with
    | (t, none) =>
      let outcome ← t.handleAll cs
      return { outcome with commands := c :: outcome.commands }
    | (t, some refusal) => return ⟨t, [c], some refusal⟩

/-- Take up a pending request to cancel. -/
def takeCancelRequest (t : Tool) : Checked IntentOutcome :=
  { t with cancelRequested := false }.handleAll (if t.cancelRequested then t.endRunning else [])

/-- Do what an intent wants. -/
def handleIntent (t : Tool) (i : Intent) : Checked IntentOutcome := do
  let first ← t.takeCancelRequest
  if first.refusal.isSome then return first
  let second ← first.tool.handleAll (← first.tool.commandsFor i)
  return { second with commands := first.commands ++ second.commands }

end Tool

end CopperRoute
