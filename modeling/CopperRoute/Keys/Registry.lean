import CopperRoute.Keyed
import CopperRoute.Keys.Chord

/-!
# Key bindings

What the keys of the tool do.  A **registry** maps chords to actions; a chord has
at most one action, the one it was bound to last.  A registry is built from a
table of texts; entries whose chord or action cannot be read are skipped.
-/

namespace CopperRoute

/-- What a key can do. -/
inductive RouterAction
  | placeThroughVia
  | placeBlindVia
  | placeMicrovia
  | selectLayerAndPlaceThroughVia
  | selectLayerAndPlaceBlindVia
  | layerNext
  | layerPrev
  | layerTop
  | layerBottom
  | undoLastSegment
  | endTrack
  | switchPosture
  | switchRounding
  | dragFortyFive
  | dragFreeAngle
  | breakTrack
  | cancel
  deriving DecidableEq, Repr, Inhabited

namespace RouterAction

/-- All actions with their names. -/
def named : List (String × RouterAction) := [
    ("PlaceThroughVia", placeThroughVia),
    ("PlaceBlindVia", placeBlindVia),
    ("PlaceMicrovia", placeMicrovia),
    ("SelectLayerAndPlaceThroughVia", selectLayerAndPlaceThroughVia),
    ("SelectLayerAndPlaceBlindVia", selectLayerAndPlaceBlindVia),
    ("LayerNext", layerNext),
    ("LayerPrev", layerPrev),
    ("LayerTop", layerTop),
    ("LayerBottom", layerBottom),
    ("UndoLastSegment", undoLastSegment),
    ("EndTrack", endTrack),
    ("SwitchPosture", switchPosture),
    ("SwitchRounding", switchRounding),
    ("DragFortyFive", dragFortyFive),
    ("DragFreeAngle", dragFreeAngle),
    ("BreakTrack", breakTrack),
    ("Cancel", cancel)]

/-- The action of a name. -/
def parse (name : String) : Except BindingError RouterAction :=
  match Keyed.find? Prod.fst name named with
  | some entry => .ok entry.2
  | none => .error (.unknownAction name)

def name (a : RouterAction) : String :=
  match Keyed.find? Prod.snd a named with
  | some entry => entry.1
  | none => ""

end RouterAction

/-- The actions of chords, each chord once. -/
structure ActionRegistry where
  bindings : List (KeyChord × RouterAction)
  deriving DecidableEq, Repr, Inhabited

namespace ActionRegistry

def empty : ActionRegistry := ⟨[]⟩

/-- Bind a chord, in place of what it was bound to. -/
def bind (r : ActionRegistry) (chord : KeyChord) (action : RouterAction) : ActionRegistry :=
  ⟨Keyed.put Prod.fst (chord, action) r.bindings⟩

/-- Bind the chord of a text to the action of a name, if both can be read. -/
def bindText (r : ActionRegistry) (entry : String × String) : ActionRegistry :=
  match KeyChord.parse entry.1, RouterAction.parse entry.2 with
  | .ok chord, .ok action => r.bind chord action
  | _, _ => r

def ofTable (table : List (String × String)) : ActionRegistry := table.foldl bindText empty

def actionFor (r : ActionRegistry) (chord : KeyChord) : Option RouterAction :=
  (Keyed.find? Prod.fst chord r.bindings).map Prod.snd

/-- The action of a chord's text; a text that is no chord has none. -/
def resolve (r : ActionRegistry) (chord : String) : Option RouterAction :=
  match KeyChord.parse chord with
  | .ok c => r.actionFor c
  | .error _ => none

def size (r : ActionRegistry) : Nat := r.bindings.length

end ActionRegistry

end CopperRoute
