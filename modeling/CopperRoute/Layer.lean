/-!
# Layers

A board is a stack of layers, numbered from the top.  The first 32 numbers are
**copper** layers; the rest are technical layers, on which nothing is routed.

* `LayerId` names one layer.
* `LayerRange` is a block of neighbouring layers, as an item occupies it.
* `LayerPair` is two layers that a via joins; which one comes first matters only
  for display.
-/

namespace CopperRoute

/-- The number of copper layers a board can have. -/
def maxCopperLayers : UInt8 := 32

/-- One layer, counted from the top. -/
structure LayerId where
  ordinal : UInt8
  deriving DecidableEq, Repr, Inhabited

namespace LayerId

instance : LE LayerId := ⟨fun a b => a.ordinal ≤ b.ordinal⟩
instance : LT LayerId := ⟨fun a b => a.ordinal < b.ordinal⟩
instance (a b : LayerId) : Decidable (a ≤ b) := inferInstanceAs (Decidable (a.ordinal ≤ b.ordinal))
instance (a b : LayerId) : Decidable (a < b) := inferInstanceAs (Decidable (a.ordinal < b.ordinal))

/-- The uppermost layer. -/
def top : LayerId := ⟨0⟩

/-- The technical layer with the given index; an index beyond the last layer
number stands for the last layer. -/
def technical (index : UInt8) : LayerId :=
  ⟨UInt8.ofNat (min 255 (maxCopperLayers.toNat + index.toNat))⟩

def isCopper (l : LayerId) : Bool := l.ordinal < maxCopperLayers

instance : ToString LayerId where
  toString l :=
    if l.isCopper then "Cu" ++ toString l.ordinal.toNat
    else "Tech" ++ toString (l.ordinal - maxCopperLayers).toNat

end LayerId

/-- Two layers to be joined. -/
structure LayerPair where
  top : LayerId
  bottom : LayerId
  deriving DecidableEq, Repr, Inhabited

namespace LayerPair

def contains (p : LayerPair) (l : LayerId) : Bool := p.top == l || p.bottom == l

/-- The other layer of the pair. -/
def paired (p : LayerPair) (l : LayerId) : Option LayerId :=
  if l = p.top then some p.bottom else if l = p.bottom then some p.top else none

/-- Does the pair join these two layers, in either direction? -/
def joins (p : LayerPair) (a b : LayerId) : Bool :=
  (p.top == a && p.bottom == b) || (p.top == b && p.bottom == a)

def isDegenerate (p : LayerPair) : Bool := p.top == p.bottom

/-- The pair of two layers, the upper one first. -/
def ordered (a b : LayerId) : LayerPair := if a ≤ b then ⟨a, b⟩ else ⟨b, a⟩

instance : ToString LayerPair where
  toString p := toString p.top ++ "/" ++ toString p.bottom

end LayerPair

/-- The layers from `first` to `last`; none when `last` lies above `first`. -/
structure LayerRange where
  first : LayerId
  last : LayerId
  deriving DecidableEq, Repr, Inhabited

namespace LayerRange

/-- The range between two layers, given in either order. -/
def between (a b : LayerId) : LayerRange := if a ≤ b then ⟨a, b⟩ else ⟨b, a⟩

def single (l : LayerId) : LayerRange := ⟨l, l⟩

def ofPair (p : LayerPair) : LayerRange := between p.top p.bottom

def contains (r : LayerRange) (l : LayerId) : Bool := r.first ≤ l && l ≤ r.last

/-- Do two ranges have a layer in common? -/
def intersects (r s : LayerRange) : Bool := r.first ≤ s.last && s.first ≤ r.last

/-- The layers of the range, from the top. -/
def layers (r : LayerRange) : List LayerId :=
  (List.range (r.last.ordinal.toNat + 1 - r.first.ordinal.toNat)).map fun k =>
    ⟨UInt8.ofNat (r.first.ordinal.toNat + k)⟩

end LayerRange

end CopperRoute
