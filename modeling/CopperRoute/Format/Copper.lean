import CopperRoute.Data.Value
import CopperRoute.Item
import CopperRoute.Layer.Stackup

/-!
# Copper as structured data

How layers, sizes and pieces of copper are written: a layer is its number, a
point is a list of two coordinates, and everything else is a record with the
names given here.  Reading takes a layer range and a stackup as they are
written, without putting them in order.
-/

namespace CopperRoute

open Data

instance : FromValue Point where
  fromValue? how v := do
    let (x, y) ← fromValue? (α := Int32 × Int32) how v
    return ⟨x, y⟩

instance : ToValue Point := ⟨fun p => toValue (p.x, p.y)⟩

instance : FromValue LayerId := ⟨fun how v => (fromValue? how v).map LayerId.mk⟩
instance : ToValue LayerId := ⟨fun l => toValue l.ordinal⟩

instance : FromValue LayerPair where
  fromValue? how v := do
    let r ← v.record? how ["top", "bottom"]
    return ⟨← r.get "top", ← r.get "bottom"⟩

instance : ToValue LayerPair where
  toValue p := .table [("top", toValue p.top), ("bottom", toValue p.bottom)]

instance : FromValue LayerRange where
  fromValue? how v := do
    let r ← v.record? how ["start", "end"]
    return ⟨← r.get "start", ← r.get "end"⟩

instance : ToValue LayerRange where
  toValue r := .table [("start", toValue r.first), ("end", toValue r.last)]

instance : FromValue Stackup where
  fromValue? how v := do
    let r ← v.record? how ["copper_count"]
    return ⟨← r.get "copper_count"⟩

instance : ToValue Stackup where
  toValue s := .table [("copper_count", toValue s.copperCount)]

instance : Named ViaType where
  all := [.through, .blindBuried, .microvia]
  name
    | .through => "Through"
    | .blindBuried => "BlindBuried"
    | .microvia => "Microvia"

instance : Named SizeSource where
  all := [.boardMinimum, .netClass, .custom, .rules]
  name
    | .boardMinimum => "BoardMinimum"
    | .netClass => "NetClass"
    | .custom => "Custom"
    | .rules => "Rules"

def Sizes.fields : List String :=
  ["track_width", "track_width_source", "via_diameter", "via_diameter_source", "via_drill",
    "via_drill_source", "diff_pair_width", "diff_pair_gap", "diff_pair_via_gap",
    "diff_pair_source", "via_type", "layer_pairs"]

instance : FromValue Sizes where
  fromValue? how v := do
    let r ← v.record? how Sizes.fields
    return {
      trackWidth := ← r.get "track_width"
      trackWidthSource := ← r.get "track_width_source"
      viaDiameter := ← r.get "via_diameter"
      viaDiameterSource := ← r.get "via_diameter_source"
      viaDrill := ← r.get "via_drill"
      viaDrillSource := ← r.get "via_drill_source"
      diffPairWidth := ← r.get "diff_pair_width"
      diffPairGap := ← r.get "diff_pair_gap"
      diffPairViaGap := ← r.get "diff_pair_via_gap"
      diffPairSource := ← r.get "diff_pair_source"
      viaType := ← r.get "via_type"
      layerPairs := ← r.get "layer_pairs" }

instance : ToValue Sizes where
  toValue s := .table [
    ("track_width", toValue s.trackWidth),
    ("track_width_source", toValue s.trackWidthSource),
    ("via_diameter", toValue s.viaDiameter),
    ("via_diameter_source", toValue s.viaDiameterSource),
    ("via_drill", toValue s.viaDrill),
    ("via_drill_source", toValue s.viaDrillSource),
    ("diff_pair_width", toValue s.diffPairWidth),
    ("diff_pair_gap", toValue s.diffPairGap),
    ("diff_pair_via_gap", toValue s.diffPairViaGap),
    ("diff_pair_source", toValue s.diffPairSource),
    ("via_type", toValue s.viaType),
    ("layer_pairs", toValue s.layerPairs)]

instance : FromValue Shape where
  fromValue? _ v := do
    let (tag, v) ← v.tagged?
    match tag with
    | "Segment" =>
      let r ← v.record? .held ["start", "end", "width"]
      return .segment ⟨← r.get "start", ← r.get "end"⟩ (← r.get "width")
    | "Via" =>
      let r ← v.record? .held ["position", "diameter", "drill", "via_type"]
      return .via (← r.get "position") (← r.get "diameter") (← r.get "drill") (← r.get "via_type")
    | "Solid" =>
      let r ← v.record? .held ["position", "size"]
      return .solid (← r.get "position") (← r.get "size")
    | _ => none

instance : ToValue Shape where
  toValue
    | .segment axis width => .table [
        ("type", .text "Segment"),
        ("start", toValue axis.start),
        ("end", toValue axis.stop),
        ("width", toValue width)]
    | .via position diameter drill type => .table [
        ("type", .text "Via"),
        ("position", toValue position),
        ("diameter", toValue diameter),
        ("drill", toValue drill),
        ("via_type", toValue type)]
    | .solid position size => .table [
        ("type", .text "Solid"),
        ("position", toValue position),
        ("size", toValue size)]

instance : FromValue Draft where
  fromValue? how v := do
    let r ← v.record? how ["kind", "net", "layers"]
    return ⟨← r.get "kind", ← r.get "net", ← r.get "layers"⟩

instance : ToValue Draft where
  toValue d := .table [
    ("kind", toValue d.shape),
    ("net", toValue d.net),
    ("layers", toValue d.layers)]

instance : FromValue Item where
  fromValue? how v := do
    let r ← v.record? how ["id", "kind", "net", "layers", "locked", "parent"]
    return {
      id := ← r.get "id"
      shape := ← r.get "kind"
      net := ← r.get "net"
      layers := ← r.get "layers"
      locked := ← r.getD "locked" false
      parent := ← r.getD "parent" none }

instance : ToValue Item where
  toValue i := .table [
    ("id", toValue i.id),
    ("kind", toValue i.shape),
    ("net", toValue i.net),
    ("layers", toValue i.layers),
    ("locked", toValue i.locked),
    ("parent", toValue i.parent)]

instance : FromValue Footprint where
  fromValue? how v := do
    let r ← v.record? how ["id", "reference", "locked"]
    return ⟨← r.get "id", ← r.get "reference", ← r.getD "locked" false⟩

instance : ToValue Footprint where
  toValue f := .table [
    ("id", toValue f.id),
    ("reference", toValue f.reference),
    ("locked", toValue f.locked)]

end CopperRoute
