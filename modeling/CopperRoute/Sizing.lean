import CopperRoute.Board
import CopperRoute.Rules

/-!
# Choosing sizes

Every dimension of a route has exactly one source: the rules, the board minimum,
a net class, or a value set by hand.  `Sizing.resolve` settles all of them for a
**request**: which net, which via type between which layers, and whether the
user's own sizes are in force.
-/

namespace CopperRoute

/-- Whose sizes are wanted: those of the copper a route starts on, or of a net. -/
inductive SizingKey
  | startItem (item : Item)
  | net (code : NetCode)
  deriving DecidableEq, Repr

/-- The net whose class counts. -/
def SizingKey.netCode : SizingKey → NetCode
  | startItem item => item.net
  | net code => code

/-- What the sizes are wanted for. -/
structure SizingRequest where
  key : SizingKey
  viaType : ViaType
  /-- The layers that the via would join. -/
  viaPair : LayerPair
  /-- The layer on which rules are consulted. -/
  layer : LayerId
  useNetClassSizes : Bool
  customSizesActive : Bool
  deriving DecidableEq, Repr

/-- A request that follows the design settings of the board. -/
def SizingRequest.forBoard (b : Board) (key : SizingKey) (viaType : ViaType) (viaPair : LayerPair)
    (layer : LayerId) : SizingRequest where
  key := key
  viaType := viaType
  viaPair := viaPair
  layer := layer
  useNetClassSizes := b.design.usesNetClassVia
  customSizesActive := b.design.useCustomSizes

namespace Sizing

/-- The via that the rules are asked about: one of the board's smallest. -/
def candidateVia (b : Board) (r : SizingRequest) : Item :=
  (Draft.via Point.zero b.design.minViaDiameter b.design.minThroughDrill r.viaType r.viaPair
    r.key.netCode).withId 0

/-- The value a rule prescribes, or else the board's minimum. -/
def ruledSize (rules : RuleSet) (kind : ConstraintKind) (candidate : Item) (layer : LayerId)
    (minimum : UInt32) : UInt32 × SizeSource :=
  match rules.eval kind candidate layer with
  | some value => (value, .rules)
  | none => (minimum, .boardMinimum)

/-- Settle diameter and drill.  The rules count for net class sizes and for
microvias, the values chosen by hand otherwise. -/
def resolveVia (b : Board) (r : SizingRequest) (rules : RuleSet) (s : Sizes) : Sizes :=
  let d := b.design
  if r.useNetClassSizes || r.viaType == .microvia then
    let candidate := candidateVia b r
    { s.setVia (ruledSize rules .viaDiameter candidate r.layer d.minViaDiameter)
        (ruledSize rules .holeSize candidate r.layer d.minThroughDrill) with
      viaType := r.viaType }
  else
    { s.setVia (d.currentViaSize, .custom) (d.currentViaDrill, .custom) with viaType := r.viaType }

/-- Settle the width of tracks and the dimensions of differential pairs. -/
def importTrack (b : Board) (key : SizingKey) (custom : Bool) (s : Sizes) : Sizes :=
  let d := b.design
  let c := d.netClassFor key.netCode
  if custom then
    { s with
      trackWidth := d.customTrackWidth
      trackWidthSource := .custom
      diffPairWidth := d.customDiffPairWidth
      diffPairGap := d.customDiffPairGap
      diffPairViaGap := d.customDiffPairViaGap
      diffPairSource := .custom }
  else
    { s with
      trackWidth := c.trackWidth
      trackWidthSource := .netClass
      diffPairWidth := c.diffPairWidth
      diffPairGap := c.diffPairGap
      diffPairViaGap := c.diffPairViaGap
      diffPairSource := .netClass }

/-- Settle all sizes.  The layer pairs of the seed are not taken over. -/
def resolve (b : Board) (r : SizingRequest) (seed : Sizes) (rules : RuleSet) : Sizes :=
  importTrack b r.key r.customSizesActive (resolveVia b r rules seed.clearLayerPairs)

end Sizing

end CopperRoute
