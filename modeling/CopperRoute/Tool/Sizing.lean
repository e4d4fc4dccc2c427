import CopperRoute.Tool.Layers

/-!
# Size commands

The user sets sizes by hand or goes back to those of the net classes.  Either way
the design settings of the board change, and the sizes of a running route are
settled anew: those in force, and those kept from before a via at the head, so
that taking the via back does not bring old values back.  Layer pairs and the via
type stay.
-/

namespace CopperRoute

namespace Sizing

/-- Settle sizes anew for changed design settings. -/
def renew (b : Board) (rules : RuleSet) (key : SizingKey) (layer : LayerId) (s : Sizes) : Sizes :=
  let pair := s.layerPairs.head?.getD b.defaultPair
  let request := SizingRequest.forBoard b key s.viaType pair layer
  s.layerPairs.foldl Sizes.addLayerPair (resolve b request s rules)

end Sizing

/-- The route with its sizes settled anew. -/
def RouteOp.renewSizes (b : Board) (rules : RuleSet) (op : RouteOp) : RouteOp :=
  let key := op.sizingKey b
  let sizes := Sizing.renew b rules key op.layer op.sizes
  { op with
    sizes := sizes
    via := op.via.map fun pending =>
      { pending with
        via := { pending.via with diameter := sizes.viaDiameter, drill := sizes.viaDrill }
        sizesBefore := Sizing.renew b rules key pending.fromLayer pending.sizesBefore } }

namespace Tool

/-- Change the design settings and all that follows from them. -/
def changeDesign (t : Tool) (change : Design → Design) : Checked Tool :=
  let t := (t.mapDesign change).syncWorld
  let t := t.mapSession fun s => s.mapRoute (RouteOp.renewSizes t.board t.rules)
  (t.notify .sizesChanged).refreshHead

def setCustomTrackWidth (t : Tool) (width : UInt32) : Checked Tool :=
  if width = 0 then return t.report (.inputRejected .zeroTrackWidth)
  else t.changeDesign fun d => { d with customTrackWidth := width, useCustomSizes := true }

def setCustomViaSize (t : Tool) (diameter drill : UInt32) : Checked Tool :=
  if drill = 0 ∨ diameter ≤ drill then
    return t.report (.inputRejected (.drillTooLarge drill diameter))
  else
    t.changeDesign fun d =>
      { d with currentViaSize := diameter, currentViaDrill := drill, useCustomSizes := true }

def setDiffPair (t : Tool) (width gap viaGap : UInt32) : Checked Tool :=
  if width = 0 ∨ gap = 0 then return t.report (.inputRejected .zeroDiffPair)
  else
    t.changeDesign fun d =>
      { d with
        customDiffPairWidth := width
        customDiffPairGap := gap
        customDiffPairViaGap := viaGap
        useCustomSizes := true }

/-- Go back to the sizes of the net classes. -/
def useNetClassSizes (t : Tool) : Checked Tool :=
  t.changeDesign fun d => { d with useCustomSizes := false }

end Tool

end CopperRoute
