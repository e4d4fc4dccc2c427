import CopperRoute.Arithmetic
import CopperRoute.Layer

/-!
# Stackups

The **stackup** of a board is the number of its copper layers; they are numbered
from `0` without gaps.  The first and the last are the **outer** layers, the ones
next to them are **adjacent** to an outer layer.

`Stackup.ofCount` builds stackups of 1 to 32 layers.  A stackup read from a file
is taken as it is written, so one without any layer occurs too: it contains no
layer, and asking for its outer layers is a fault (`Stackup.requireCopper`).
-/

namespace CopperRoute

/-- The copper layers of a board. -/
structure Stackup where
  copperCount : UInt8
  deriving DecidableEq, Repr, Inhabited

namespace Stackup

/-- A stackup of `n` layers, at least one and at most 32. -/
def ofCount (n : UInt8) : Stackup := ⟨max 1 (min maxCopperLayers n)⟩

/-- The stackup of a board that says nothing about it. -/
def standard : Stackup := ofCount 2

/-- A stackup without layers has no outer layers. -/
def requireCopper (s : Stackup) : Checked Unit :=
  if s.copperCount = 0 then .error .overflow else .ok ()

def top (_ : Stackup) : LayerId := LayerId.top

/-- The lowest layer, if there is any. -/
def bottom (s : Stackup) : LayerId := ⟨s.copperCount - 1⟩

def secondFromTop (s : Stackup) : LayerId := ⟨min 1 (s.copperCount - 1)⟩

def secondFromBottom (s : Stackup) : LayerId :=
  ⟨if s.copperCount < 2 then 0 else s.copperCount - 2⟩

def contains (s : Stackup) (l : LayerId) : Bool := l.isCopper && l.ordinal < s.copperCount

def isOuter (s : Stackup) (l : LayerId) : Bool := l == s.top || l == s.bottom

def isAdjacentToOuter (s : Stackup) (l : LayerId) : Bool :=
  s.contains l && (l == s.secondFromTop || l == s.secondFromBottom)

/-- Does the pair join the two outer layers? -/
def isFullSpan (s : Stackup) (p : LayerPair) : Bool := p.joins s.top s.bottom

/-- The copper layers, from the top. -/
def copperLayers (s : Stackup) : List LayerId :=
  (List.range s.copperCount.toNat).map fun k => ⟨UInt8.ofNat k⟩

def outerPair (s : Stackup) : LayerPair := ⟨s.top, s.bottom⟩

end Stackup

end CopperRoute
