import CopperRoute.Item
import CopperRoute.Keyed

/-!
# Design settings

What a board prescribes for its copper: minima, the via types it allows, the
sizes the user set by hand, and the **net classes**.  A net takes its sizes from
the first class that lists it, or else from the class named `Default`.
-/

namespace CopperRoute

/-- The sizes of the nets in one class. -/
structure NetClass where
  trackWidth : UInt32
  viaDiameter : UInt32
  viaDrill : UInt32
  diffPairWidth : UInt32
  diffPairGap : UInt32
  diffPairViaGap : UInt32
  nets : List NetCode
  deriving DecidableEq, Repr, Inhabited

/-- The class of a net when the board defines none. -/
def NetClass.standard : NetClass where
  trackWidth := 250000
  viaDiameter := 800000
  viaDrill := 400000
  diffPairWidth := 200000
  diffPairGap := 250000
  diffPairViaGap := 250000
  nets := []

/-- The name of the class that takes the nets no class lists. -/
def defaultClassName : String := "Default"

/-- What a board prescribes for its copper, in nanometres. -/
structure Design where
  minViaDiameter : UInt32
  minThroughDrill : UInt32
  minClearance : UInt32
  blindBuriedAllowed : Bool
  microviasAllowed : Bool
  /-- Sizes set by hand are in force, not those of the net classes. -/
  useCustomSizes : Bool
  customTrackWidth : UInt32
  currentViaSize : UInt32
  currentViaDrill : UInt32
  customDiffPairWidth : UInt32
  customDiffPairGap : UInt32
  customDiffPairViaGap : UInt32
  /-- The net classes by name, in order. -/
  netClasses : List (String × NetClass)
  routeLayerPair : Option LayerPair
  deriving DecidableEq, Repr, Inhabited

namespace Design

def standard : Design where
  minViaDiameter := 500000
  minThroughDrill := 300000
  minClearance := 200000
  blindBuriedAllowed := false
  microviasAllowed := false
  useCustomSizes := false
  customTrackWidth := 250000
  currentViaSize := 600000
  currentViaDrill := 300000
  customDiffPairWidth := 200000
  customDiffPairGap := 250000
  customDiffPairViaGap := 250000
  netClasses := [(defaultClassName, NetClass.standard)]
  routeLayerPair := none

/-- The class a net takes its sizes from. -/
def netClassFor (d : Design) (net : NetCode) : NetClass :=
  match d.netClasses.find? fun c => c.2.nets.contains net with
  | some c => c.2
  | none =>
    match Keyed.find? Prod.fst defaultClassName d.netClasses with
    | some c => c.2
    | none => NetClass.standard

/-- Do vias take the sizes of the net classes? -/
def usesNetClassVia (d : Design) : Bool := !d.useCustomSizes

end Design

end CopperRoute
