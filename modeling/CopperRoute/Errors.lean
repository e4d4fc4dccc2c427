import CopperRoute.Path.Request
import CopperRoute.Via

/-!
# What the user is told

None of these errors ends the session: each is reported to the host, and the
session stays in its last stable state.  An error is kept as its cause; `message`
is its wording.
-/

namespace CopperRoute

/-- A drill that does not fit its via. -/
def drillMessage (drill diameter : UInt32) : String :=
  s!"Via-Bohrung {drill} passt nicht zu Durchmesser {diameter}"

/-- Why an input is refused. -/
inductive InputRejection
  | notCopper (layer : LayerId)
  | nothingToDrag
  | unknownFootprint (id : FootprintId)
  | footprintWithoutPads (reference : String)
  | noSegmentHere
  | layerRefused (reason : LayerRefusal)
  | illegalLayerPair (pair : LayerPair)
  | zeroTrackWidth
  | drillTooLarge (drill diameter : UInt32)
  | zeroDiffPair
  /-- A reason that the host gives. -/
  | other (text : String)
  deriving DecidableEq, Repr, Inhabited

def InputRejection.message : InputRejection → String
  | notCopper layer => s!"Leiterbahnen nur auf Kupfer-Layern ({layer})"
  | nothingToDrag => "Keine Items zum Ziehen ausgewählt"
  | unknownFootprint id => s!"Footprint {id} existiert nicht"
  | footprintWithoutPads reference => s!"Footprint {reference} hat keine Pads"
  | noSegmentHere => "Kein Segment unter dem Zeiger"
  | layerRefused reason => reason.message
  | illegalLayerPair pair => s!"Layer-Paar {pair} ist im Lagenaufbau nicht zulässig"
  | zeroTrackWidth => "Leiterbahnbreite muss größer als 0 sein"
  | drillTooLarge drill diameter => drillMessage drill diameter
  | zeroDiffPair => "Diff-Pair-Breite und -Abstand müssen größer als 0 sein"
  | other text => text

/-- Why the board does not accept a change. -/
inductive CommitRejection
  | layerOutside (layer : LayerId)
  | noWidth
  | noLength
  | drillTooLarge (drill diameter : UInt32)
  | unknownItem (id : ItemId)
  | lockedItem (id : ItemId)
  | changedAndRemoved (id : ItemId)
  deriving DecidableEq, Repr, Inhabited

def CommitRejection.message : CommitRejection → String
  | layerOutside layer => s!"Layer {layer} liegt außerhalb des Lagenaufbaus"
  | noWidth => "Segment ohne Breite"
  | noLength => "Segment ohne Länge"
  | drillTooLarge drill diameter => drillMessage drill diameter
  | unknownItem id => s!"Item {id} existiert nicht"
  | lockedItem id => s!"Item {id} ist gesperrt"
  | changedAndRemoved id => s!"Item {id} wird gleichzeitig geändert und entfernt"

/-- An error of the routing session. -/
inductive RouterError
  | inputRejected (reason : InputRejection)
  | viaTypeDisabled (viaType : ViaType)
  | stackupIncompatible (conflict : StackupConflict)
  | startFailure (reason : StartRefusal)
  | noGeometricSolution
  | commitFailed (reason : CommitRejection)
  deriving DecidableEq, Repr, Inhabited

/-- What vias of a type are called. -/
def ViaType.plural : ViaType → String
  | through => "Durchgangs-Vias"
  | blindBuried => "Blind/Buried-Vias"
  | microvia => "Microvias"

namespace RouterError

def message : RouterError → String
  | inputRejected reason => "Eingabe abgelehnt: " ++ reason.message
  | viaTypeDisabled viaType => viaType.plural ++ " sind in den Design-Regeln deaktiviert"
  | stackupIncompatible conflict => conflict.message
  | startFailure reason => reason.message
  | noGeometricSolution => "Keine geometrische Lösung im aktiven Modus"
  | commitFailed reason => "Commit fehlgeschlagen: " ++ reason.message

/-- A via that cannot be placed, as an error of the session. -/
def ofVia : ViaRejection → RouterError
  | .disabled viaType => viaTypeDisabled viaType
  | .incompatible conflict => stackupIncompatible conflict

end RouterError

end CopperRoute
