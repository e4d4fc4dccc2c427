import CopperRoute.Board
import CopperRoute.Data.Toml.Document
import CopperRoute.Format.Copper
import CopperRoute.Rules

/-!
# Boards and rules as structured data

A board file and its design settings may leave out every field; what is left out
has its standard value.  Net classes are a table from names to classes.
-/

namespace CopperRoute

open Data

instance : FromValue NetClass where
  fromValue? how v := do
    let r ← v.record? how ["track_width", "via_diameter", "via_drill", "diff_pair_width",
      "diff_pair_gap", "diff_pair_via_gap", "nets"]
    return {
      trackWidth := ← r.get "track_width"
      viaDiameter := ← r.get "via_diameter"
      viaDrill := ← r.get "via_drill"
      diffPairWidth := ← r.get "diff_pair_width"
      diffPairGap := ← r.get "diff_pair_gap"
      diffPairViaGap := ← r.get "diff_pair_via_gap"
      nets := ← r.getD "nets" [] }

instance : ToValue NetClass where
  toValue c := .table [
    ("track_width", toValue c.trackWidth),
    ("via_diameter", toValue c.viaDiameter),
    ("via_drill", toValue c.viaDrill),
    ("diff_pair_width", toValue c.diffPairWidth),
    ("diff_pair_gap", toValue c.diffPairGap),
    ("diff_pair_via_gap", toValue c.diffPairViaGap),
    ("nets", toValue c.nets)]

def Design.fields : List String :=
  ["min_via_diameter", "min_through_drill", "min_clearance", "blind_buried_allowed",
    "microvias_allowed", "use_custom_track_via_size", "custom_track_width", "current_via_size",
    "current_via_drill", "custom_diff_pair_width", "custom_diff_pair_gap",
    "custom_diff_pair_via_gap", "net_classes", "route_layer_pair"]

/-- The net classes of a record, if it gives any. -/
def Design.readClasses (r : Record) (standard : List (String × NetClass)) :
    Option (List (String × NetClass)) :=
  match r.field? "net_classes" with
  | some v => tableOf? NetClass r.how v
  | none => some standard

instance : FromValue Design where
  fromValue? how v := do
    let r ← v.record? how Design.fields
    let d := Design.standard
    return {
      minViaDiameter := ← r.getD "min_via_diameter" d.minViaDiameter
      minThroughDrill := ← r.getD "min_through_drill" d.minThroughDrill
      minClearance := ← r.getD "min_clearance" d.minClearance
      blindBuriedAllowed := ← r.getD "blind_buried_allowed" d.blindBuriedAllowed
      microviasAllowed := ← r.getD "microvias_allowed" d.microviasAllowed
      useCustomSizes := ← r.getD "use_custom_track_via_size" d.useCustomSizes
      customTrackWidth := ← r.getD "custom_track_width" d.customTrackWidth
      currentViaSize := ← r.getD "current_via_size" d.currentViaSize
      currentViaDrill := ← r.getD "current_via_drill" d.currentViaDrill
      customDiffPairWidth := ← r.getD "custom_diff_pair_width" d.customDiffPairWidth
      customDiffPairGap := ← r.getD "custom_diff_pair_gap" d.customDiffPairGap
      customDiffPairViaGap := ← r.getD "custom_diff_pair_via_gap" d.customDiffPairViaGap
      netClasses := ← Design.readClasses r d.netClasses
      routeLayerPair := ← r.getD "route_layer_pair" d.routeLayerPair }

instance : ToValue Design where
  toValue d := .table [
    ("min_via_diameter", toValue d.minViaDiameter),
    ("min_through_drill", toValue d.minThroughDrill),
    ("min_clearance", toValue d.minClearance),
    ("blind_buried_allowed", toValue d.blindBuriedAllowed),
    ("microvias_allowed", toValue d.microviasAllowed),
    ("use_custom_track_via_size", toValue d.useCustomSizes),
    ("custom_track_width", toValue d.customTrackWidth),
    ("current_via_size", toValue d.currentViaSize),
    ("current_via_drill", toValue d.currentViaDrill),
    ("custom_diff_pair_width", toValue d.customDiffPairWidth),
    ("custom_diff_pair_gap", toValue d.customDiffPairGap),
    ("custom_diff_pair_via_gap", toValue d.customDiffPairViaGap),
    ("net_classes", ofTable d.netClasses),
    ("route_layer_pair", toValue d.routeLayerPair)]

instance : FromValue BoardFile where
  fromValue? how v := do
    let r ← v.record? how ["stackup", "enabled_layers", "design", "footprints", "items"]
    let f := BoardFile.standard
    return {
      stackup := ← r.getD "stackup" f.stackup
      enabledLayers := ← r.getD "enabled_layers" f.enabledLayers
      design := ← r.getD "design" f.design
      footprints := ← r.getD "footprints" f.footprints
      items := ← r.getD "items" f.items }

instance : ToValue BoardFile where
  toValue f := .table [
    ("stackup", toValue f.stackup),
    ("enabled_layers", toValue f.enabledLayers),
    ("design", toValue f.design),
    ("footprints", toValue f.footprints),
    ("items", toValue f.items)]

/-- The board file of a TOML text. -/
def BoardFile.ofText? (s : String) : Option BoardFile := (Toml.read? s).bind (fromValue? .lenient)

instance : Named ConstraintKind where
  all := [.viaDiameter, .holeSize]
  name
    | .viaDiameter => "ViaDiameter"
    | .holeSize => "HoleSize"

instance : FromValue RuleCondition where
  fromValue? how v := do
    let r ← v.record? how ["nets", "via_type", "layer"]
    return ⟨← r.getD "nets" none, ← r.getD "via_type" none, ← r.getD "layer" none⟩

instance : ToValue RuleCondition where
  toValue c := .table [
    ("nets", toValue c.nets),
    ("via_type", toValue c.viaType),
    ("layer", toValue c.layer)]

instance : FromValue Rule where
  fromValue? how v := do
    let r ← v.record? how ["name", "kind", "value", "condition"]
    return {
      name := ← r.get "name"
      kind := ← r.get "kind"
      value := ← r.get "value"
      condition := ← r.getD "condition" RuleCondition.always }

instance : ToValue Rule where
  toValue r := .table [
    ("name", toValue r.name),
    ("kind", toValue r.kind),
    ("value", toValue r.value),
    ("condition", toValue r.condition)]

end CopperRoute
