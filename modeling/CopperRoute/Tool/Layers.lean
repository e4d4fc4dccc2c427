import CopperRoute.Tool.Routing
import CopperRoute.Via

/-!
# Layer commands

While a route runs, its head changes the layer by a **via** that hangs at its end
and is placed with the next step, or directly when it starts on a via or a pad.
Asking for a via while one hangs there takes that one back, and with it the sizes
and the layer from before.
-/

namespace CopperRoute

namespace RouteOp

/-- Whose sizes the next via of the route takes. -/
def sizingKey (op : RouteOp) (b : Board) : SizingKey :=
  SizingKey.ofStart op.net (op.startItem.bind b.item?)

/-- The route with a via at its head. -/
def hangVia (op : RouteOp) (b : Board) (rules : RuleSet) (v : ResolvedVia) : RouteOp :=
  let span := v.span b.stackup
  let request := SizingRequest.forBoard b (op.sizingKey b) v.viaType span op.layer
  let sizes := v.applyTo (Sizing.resolveVia b request rules op.sizes)
  { op with
    sizes := sizes
    via := some {
      via := ⟨v.viaType, span, sizes.viaDiameter, sizes.viaDrill⟩
      fromLayer := op.layer
      toLayer := (sizes.pairedLayer op.layer).getD (sizes.topLayer.getD op.layer)
      sizesBefore := op.sizes } }

/-- The route without the via at its head. -/
def withdrawVia (op : RouteOp) : RouteOp :=
  match op.via with
  | some pending =>
    { op with via := none, sizes := pending.sizesBefore, layer := pending.fromLayer }
  | none => op

/-- The route with a new pair of layers for its next via; the via that hangs at
the head keeps its own. -/
def usePair (pair : LayerPair) (op : RouteOp) : RouteOp :=
  if op.via.isSome then op
  else { op with sizes := op.sizes.clearLayerPairs.addLayerPair pair }

end RouteOp

/-- The session with the via at the head taken back. -/
def Session.withdrawVia (s : Session) : Session :=
  match s.route?.bind RouteOp.via with
  | some pending => { s.mapRoute RouteOp.withdrawVia with activeLayer := pending.fromLayer }
  | none => s

/-- What the board says about vias. -/
def ViaEnvironment.ofBoard (b : Board) : ViaEnvironment where
  stackup := b.stackup
  blindBuriedAllowed := b.design.blindBuriedAllowed
  microviasAllowed := b.design.microviasAllowed
  defaultPair := b.defaultPair

namespace Tool

/-- Hang a via to the head of the running route, or take the one that hangs there
back. -/
def toggleVia (t : Tool) (viaType : ViaType) (target : Option LayerId) : Checked Tool :=
  match t.session.route? with
  | none => return t.notify (.info .viaOnlyWhileRouting)
  | some op =>
    if op.via.isSome then (t.mapSession Session.withdrawVia).refreshHead
    else
      match Via.resolve ⟨op.layer, target, viaType⟩ (ViaEnvironment.ofBoard t.board) with
      | .error rejection => return t.report (RouterError.ofVia rejection)
      | .ok v =>
        let op := op.hangVia t.board t.rules v
        (t.mapSession fun s =>
          { s with operation := .routing op, activeLayer := nextLayer op }).refreshHead

/-- Place a via.  No layer is asked for any more. -/
def placeVia (t : Tool) (viaType : ViaType) (target : Option LayerId) : Checked Tool :=
  (t.mapSession fun s => { s with pendingViaTarget := none }).toggleVia viaType target

/-- Ask for the layer that the next via shall lead to. -/
def requestViaTarget (t : Tool) (viaType : ViaType) : Tool :=
  (t.mapSession fun s => { s with pendingViaTarget := some viaType }).notify
    (.info .chooseViaTarget)

/-- Take the head of the running route to a layer. -/
def routeToLayer (t : Tool) (r : RouteRequest) (layer : LayerId) : Checked Tool :=
  match t.world.switchLayer r layer with
  | .direct =>
    (t.mapSession fun s =>
      { s.mapRoute fun op => { op with layer := layer } with activeLayer := layer }).refreshHead
  | .viaRequired => t.placeVia .through (some layer)
  | .refused reason => return t.report (.inputRejected (.layerRefused reason))

/-- Go to the layer that a command names, with the running route if there is one. -/
def goToLayer (t : Tool) (command : LayerCommand) : Checked Tool :=
  let current := (t.session.route?.map RouteOp.layer).getD t.session.activeLayer
  match command.resolve current t.board.enabledLayers, t.session.request? with
  | none, _ => return t
  | some layer, none => return t.mapSession fun s => { s with activeLayer := layer }
  | some layer, some r => t.routeToLayer r layer

/-- Go to another layer.  A via at the head is taken back first. -/
def switchLayer (t : Tool) (command : LayerCommand) : Checked Tool :=
  (t.mapSession Session.withdrawVia).goToLayer command

/-- Choose the pair of layers that vias join when nothing else is said. -/
def selectLayerPair (t : Tool) (pair : LayerPair) : Tool :=
  if !t.board.stackup.contains pair.top || !t.board.stackup.contains pair.bottom ||
      pair.isDegenerate then
    t.report (.inputRejected (.illegalLayerPair pair))
  else
    ((t.mapDesign fun d => { d with routeLayerPair := some pair }).mapSession fun s =>
      s.mapRoute (RouteOp.usePair pair)).syncWorld

end Tool

end CopperRoute
