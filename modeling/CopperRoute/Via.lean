import CopperRoute.Layer.Stackup
import CopperRoute.Sizes

/-!
# Which vias are legal

The user asks for a via of some type, on the current layer and perhaps to a
given layer.  `Via.resolve` either says which via that is, or why there is none.
The grounds for refusal are tried in order: the type is switched off, the board
has no inner layers, a microvia is out of place, and at last the two layers do
not make a legal pair.
-/

namespace CopperRoute

/-- A via that the user asks for. -/
structure ViaRequest where
  current : LayerId
  /-- The layer the user chose, if any. -/
  target : Option LayerId
  requested : ViaType
  deriving DecidableEq, Repr, Inhabited

/-- What the board says about vias. -/
structure ViaEnvironment where
  stackup : Stackup
  blindBuriedAllowed : Bool
  microviasAllowed : Bool
  /-- The pair of layers that a via joins when nothing else is said. -/
  defaultPair : LayerPair
  deriving DecidableEq, Repr, Inhabited

/-- A legal via, its upper layer first. -/
structure ResolvedVia where
  viaType : ViaType
  pair : LayerPair
  deriving DecidableEq, Repr, Inhabited

namespace ResolvedVia

/-- The layers that the hole goes through: all of them for a through via. -/
def span (v : ResolvedVia) (s : Stackup) : LayerPair :=
  match v.viaType with
  | .through => s.outerPair
  | .blindBuried | .microvia => v.pair

/-- Sizes that use this via, and change between its layers only. -/
def applyTo (v : ResolvedVia) (s : Sizes) : Sizes :=
  ({ s with viaType := v.viaType }.clearLayerPairs).addLayerPair v.pair

end ResolvedVia

/-- How a via fails to fit the stackup. -/
inductive StackupConflict
  | onlyThroughOnTwoLayers
  | microviaAwayFromOuter
  | illegalPair
  deriving DecidableEq, Repr, Inhabited

def StackupConflict.message : StackupConflict → String
  | onlyThroughOnTwoLayers => "Auf 2-lagigen Boards sind nur Durchgangs-Vias erlaubt."
  | microviaAwayFromOuter =>
    "Microvias sind nur zwischen Außenlagen und den direkt benachbarten Lagen möglich."
  | illegalPair => "Das Via-Layer-Paar ist im aktuellen Lagenaufbau nicht zulässig."

/-- Why there is no such via. -/
inductive ViaRejection
  | disabled (viaType : ViaType)
  | incompatible (conflict : StackupConflict)
  deriving DecidableEq, Repr, Inhabited

namespace Via

/-- The grounds on which a request is refused before its layers are looked at,
in order. -/
def rejection? (r : ViaRequest) (e : ViaEnvironment) : Option ViaRejection :=
  if r.requested = .blindBuried ∧ !e.blindBuriedAllowed then some (.disabled r.requested)
  else if r.requested = .microvia ∧ !e.microviasAllowed then some (.disabled r.requested)
  else if r.requested ≠ .through ∧ e.stackup.copperCount ≤ 2 then
    some (.incompatible .onlyThroughOnTwoLayers)
  else if r.requested = .microvia ∧ !e.stackup.isOuter r.current ∧
      !e.stackup.isAdjacentToOuter r.current then
    some (.incompatible .microviaAwayFromOuter)
  else none

/-- The layer that a via other than a microvia leads to: the one the user chose,
or the other layer of the default pair, or the upper layer of that pair when the
current layer is not in it. -/
def targetLayer (r : ViaRequest) (e : ViaEnvironment) : LayerId :=
  r.target.getD ((e.defaultPair.paired r.current).getD e.defaultPair.top)

/-- The two layers that the via joins. -/
def pair (r : ViaRequest) (e : ViaEnvironment) : LayerPair :=
  match r.requested with
  | .through | .blindBuried => LayerPair.ordered r.current (targetLayer r e)
  | .microvia =>
    if r.current = e.stackup.top ∨ r.current = e.stackup.secondFromTop then
      ⟨e.stackup.top, e.stackup.secondFromTop⟩
    else ⟨e.stackup.secondFromBottom, e.stackup.bottom⟩

/-- A blind or buried via through the whole stackup is a through via. -/
def typeFor (r : ViaRequest) (e : ViaEnvironment) : ViaType :=
  if r.requested = .blindBuried ∧ e.stackup.isFullSpan (pair r e) then .through else r.requested

/-- The via that the user asks for. -/
def resolve (r : ViaRequest) (e : ViaEnvironment) : Except ViaRejection ResolvedVia :=
  match rejection? r e with
  | some rejection => .error rejection
  | none =>
    let p := pair r e
    if p.isDegenerate || !e.stackup.contains p.top || !e.stackup.contains p.bottom then
      .error (.incompatible .illegalPair)
    else .ok ⟨typeFor r e, p⟩

end Via

end CopperRoute
