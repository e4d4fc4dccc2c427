import CopperRoute.Format.Copper
import CopperRoute.Format.Options
import CopperRoute.Tool.Intent

/-!
# Intents and commands as structured data

An intent and a command are records that name their variant in the field `type`.
A layer command is the name of its direction; an inner layer is a table from the
name `Inner` to the number of the layer.
-/

namespace CopperRoute

open Data

namespace LayerCommand

/-- The directions that need no number. -/
def directions : List (String × LayerCommand) :=
  [("Next", next), ("Prev", prev), ("Top", top), ("Bottom", bottom)]

end LayerCommand

instance : FromValue LayerCommand where
  fromValue? how v := do
    match ← v.variant? with
    | ("Inner", some n) => (fromValue? how n).map LayerCommand.inner
    | (name, content) =>
      guard (content.all how.isNothing)
      (Keyed.find? Prod.fst name LayerCommand.directions).map Prod.snd

instance : ToValue LayerCommand where
  toValue
    | .next => .text "Next"
    | .prev => .text "Prev"
    | .top => .text "Top"
    | .bottom => .text "Bottom"
    | .inner n => .table [("Inner", toValue n)]

/-- The record of a variant. -/
def tagged (tag : String) (fields : List (String × Value)) : Value :=
  .table (("type", .text tag) :: fields)

namespace Intent

/-- Read the intent of a variant. -/
def read (tag : String) (v : Value) : Option Intent := do
  match tag with
  | "Motion" =>
    let r ← v.record? .held ["position", "ctrl"]
    return motion (← r.get "position") (← r.getD "ctrl" false)
  | "Click" =>
    let r ← v.record? .held ["position", "shift", "ctrl"]
    return click (← r.get "position") (← r.getD "shift" false) (← r.getD "ctrl" false)
  | "DoubleClick" => return doubleClick (← (← v.record? .held ["position"]).get "position")
  | "KeyPress" => return keyPress (← (← v.record? .held ["chord"]).get "chord")
  | "Cancel" => (v.record? .held []).map fun _ => cancel
  | "Activate" => (v.record? .held []).map fun _ => activate
  | "Deactivate" => (v.record? .held []).map fun _ => deactivate
  | "PlaceViaRequested" =>
    let r ← v.record? .held ["via_type", "target"]
    return placeVia (← r.get "via_type") (← r.getD "target" none)
  | "ViaTargetLayerSelected" => return viaTargetSelected (← (← v.record? .held ["layer"]).get "layer")
  | "LayerSwitchRequested" => return switchLayer (← (← v.record? .held ["command"]).get "command")
  | "LayerPairSelected" =>
    let r ← v.record? .held ["top", "bottom"]
    return selectLayerPair ⟨← r.get "top", ← r.get "bottom"⟩
  | "RouterModeChanged" => return setRouterMode (← (← v.record? .held ["mode"]).get "mode")
  | "CustomTrackWidthChanged" => return setCustomTrackWidth (← (← v.record? .held ["width"]).get "width")
  | "CustomViaSizeChanged" =>
    let r ← v.record? .held ["diameter", "drill"]
    return setCustomViaSize (← r.get "diameter") (← r.get "drill")
  | "DiffPairDimensionsChanged" =>
    let r ← v.record? .held ["width", "gap", "via_gap"]
    return setDiffPair (← r.get "width") (← r.get "gap") (← r.get "via_gap")
  | "NetClassSizesRequested" => (v.record? .held []).map fun _ => useNetClassSizes
  | "DragSelectionRequested" =>
    let r ← v.record? .held ["items", "anchor", "free_angle"]
    return dragSelection (← r.get "items") (← r.get "anchor") (← r.getD "free_angle" false)
  | "DragFootprintRequested" =>
    let r ← v.record? .held ["footprint", "anchor"]
    return dragFootprint (← r.get "footprint") (← r.get "anchor")
  | "BreakTrackRequested" => return breakTrack (← (← v.record? .held ["position"]).get "position")
  | "UndoRequested" => (v.record? .held []).map fun _ => undo
  | "RedoRequested" => (v.record? .held []).map fun _ => redo
  | "ModelChanged" => (v.record? .held []).map fun _ => modelChanged
  | _ => none

end Intent

instance : FromValue Intent where
  fromValue? _ v := do
    let (tag, v) ← v.tagged?
    Intent.read tag v

instance : ToValue Intent where
  toValue
    | .motion position ctrl =>
      tagged "Motion" [("position", toValue position), ("ctrl", toValue ctrl)]
    | .click position shift ctrl =>
      tagged "Click"
        [("position", toValue position), ("shift", toValue shift), ("ctrl", toValue ctrl)]
    | .doubleClick position => tagged "DoubleClick" [("position", toValue position)]
    | .keyPress chord => tagged "KeyPress" [("chord", toValue chord)]
    | .cancel => tagged "Cancel" []
    | .activate => tagged "Activate" []
    | .deactivate => tagged "Deactivate" []
    | .placeVia viaType target =>
      tagged "PlaceViaRequested" [("via_type", toValue viaType), ("target", toValue target)]
    | .viaTargetSelected layer => tagged "ViaTargetLayerSelected" [("layer", toValue layer)]
    | .switchLayer command => tagged "LayerSwitchRequested" [("command", toValue command)]
    | .selectLayerPair pair =>
      tagged "LayerPairSelected" [("top", toValue pair.top), ("bottom", toValue pair.bottom)]
    | .setRouterMode mode => tagged "RouterModeChanged" [("mode", toValue mode)]
    | .setCustomTrackWidth width => tagged "CustomTrackWidthChanged" [("width", toValue width)]
    | .setCustomViaSize diameter drill =>
      tagged "CustomViaSizeChanged" [("diameter", toValue diameter), ("drill", toValue drill)]
    | .setDiffPair width gap viaGap =>
      tagged "DiffPairDimensionsChanged"
        [("width", toValue width), ("gap", toValue gap), ("via_gap", toValue viaGap)]
    | .useNetClassSizes => tagged "NetClassSizesRequested" []
    | .dragSelection items anchor freeAngle =>
      tagged "DragSelectionRequested"
        [("items", toValue items), ("anchor", toValue anchor), ("free_angle", toValue freeAngle)]
    | .dragFootprint footprint anchor =>
      tagged "DragFootprintRequested"
        [("footprint", toValue footprint), ("anchor", toValue anchor)]
    | .breakTrack position => tagged "BreakTrackRequested" [("position", toValue position)]
    | .undo => tagged "UndoRequested" []
    | .redo => tagged "RedoRequested" []
    | .modelChanged => tagged "ModelChanged" []

instance : ToValue Command where
  toValue
    | .startRouting position item =>
      tagged "StartRouting" [("position", toValue position), ("item", toValue item)]
    | .moveHead position item ortho =>
      tagged "MoveHead"
        [("position", toValue position), ("item", toValue item), ("ortho", toValue ortho)]
    | .fixRoute position item finish =>
      tagged "FixRoute"
        [("position", toValue position), ("item", toValue item), ("force_finish", toValue finish)]
    | .undoLastSegment => tagged "UndoLastSegment" []
    | .placeVia viaType target =>
      tagged "PlaceVia" [("via_type", toValue viaType), ("target", toValue target)]
    | .requestViaTarget viaType => tagged "RequestViaTarget" [("via_type", toValue viaType)]
    | .switchLayer command => tagged "SwitchLayer" [("command", toValue command)]
    | .flipPosture => tagged "FlipPosture" []
    | .toggleRounding => tagged "ToggleRounding" []
    | .setRouterMode mode => tagged "SetRouterMode" [("mode", toValue mode)]
    | .setCustomTrackWidth width => tagged "SetCustomTrackWidth" [("width", toValue width)]
    | .setCustomViaSize diameter drill =>
      tagged "SetCustomViaSize" [("diameter", toValue diameter), ("drill", toValue drill)]
    | .setDiffPair width gap viaGap =>
      tagged "SetDiffPairDimensions"
        [("width", toValue width), ("gap", toValue gap), ("via_gap", toValue viaGap)]
    | .useNetClassSizes => tagged "UseNetClassSizes" []
    | .selectLayerPair pair => tagged "SelectLayerPair" [("pair", toValue (pair.top, pair.bottom))]
    | .startDrag items anchor mode =>
      tagged "StartDrag"
        [("items", toValue items), ("anchor", toValue anchor), ("mode", toValue mode)]
    | .startFootprintDrag footprint anchor mode =>
      tagged "StartFootprintDrag"
        [("footprint", toValue footprint), ("anchor", toValue anchor), ("mode", toValue mode)]
    | .moveDrag position => tagged "MoveDrag" [("position", toValue position)]
    | .fixDrag => tagged "FixDrag" []
    | .breakTrack position => tagged "BreakTrack" [("position", toValue position)]
    | .trackCursor position => tagged "TrackCursor" [("position", toValue position)]
    | .cancelOperation => tagged "CancelOperation" []
    | .resetSession => tagged "ResetSession" []
    | .clearWorld => tagged "ClearWorld" []
    | .syncWorld => tagged "SyncWorld" []
    | .undo => tagged "Undo" []
    | .redo => tagged "Redo" []

end CopperRoute
