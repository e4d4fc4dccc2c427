import CopperRoute.Layer

/-!
# Routing sizes

A running route carries one set of **sizes**: the width of its tracks, the
diameter and drill of its next via, the dimensions of a differential pair, and
the pairs of layers it changes between.  Every dimension remembers where its
value came from.
-/

namespace CopperRoute

/-- How a via goes through the board. -/
inductive ViaType
  /-- From one outer layer to the other. -/
  | through
  /-- Between two layers, not both outer. -/
  | blindBuried
  /-- From an outer layer to the layer next to it. -/
  | microvia
  deriving DecidableEq, Repr, Inhabited

/-- Where a dimension came from. -/
inductive SizeSource
  | boardMinimum
  | netClass
  | custom
  | rules
  deriving DecidableEq, Repr, Inhabited

/-- The sizes that a route uses, in nanometres. -/
structure Sizes where
  trackWidth : UInt32
  trackWidthSource : SizeSource
  viaDiameter : UInt32
  viaDiameterSource : SizeSource
  viaDrill : UInt32
  viaDrillSource : SizeSource
  diffPairWidth : UInt32
  diffPairGap : UInt32
  diffPairViaGap : UInt32
  diffPairSource : SizeSource
  viaType : ViaType
  layerPairs : List LayerPair
  deriving DecidableEq, Repr, Inhabited

namespace Sizes

/-- The sizes before anything is known about the board. -/
def standard : Sizes where
  trackWidth := 250000
  trackWidthSource := .boardMinimum
  viaDiameter := 600000
  viaDiameterSource := .boardMinimum
  viaDrill := 300000
  viaDrillSource := .boardMinimum
  diffPairWidth := 200000
  diffPairGap := 250000
  diffPairViaGap := 250000
  diffPairSource := .boardMinimum
  viaType := .through
  layerPairs := []

def clearLayerPairs (s : Sizes) : Sizes := { s with layerPairs := [] }

/-- A pair that is already there is not added again. -/
def addLayerPair (s : Sizes) (p : LayerPair) : Sizes :=
  if p ∈ s.layerPairs then s else { s with layerPairs := s.layerPairs ++ [p] }

/-- The layer across from `l` in the first pair that has it. -/
def pairedLayer (s : Sizes) (l : LayerId) : Option LayerId :=
  s.layerPairs.findSome? fun p => p.paired l

/-- The upper layer of the first pair. -/
def topLayer (s : Sizes) : Option LayerId := s.layerPairs.head?.map LayerPair.top

def setVia (s : Sizes) (diameter drill : UInt32 × SizeSource) : Sizes :=
  { s with
    viaDiameter := diameter.1
    viaDiameterSource := diameter.2
    viaDrill := drill.1
    viaDrillSource := drill.2 }

end Sizes

end CopperRoute
