import CopperRoute.Data.Toml.Document
import CopperRoute.Data.Toml.Quoted
import CopperRoute.Options

/-!
# Options as structured data

The key bindings are a table from chords to the names of actions.  The router
mode and the snap radius must be given; what else is left out has its standard
value.  `Options.load` reads the options from a TOML text and falls back to the
standard ones, and `Options.text` writes such a text.
-/

namespace CopperRoute

open Data

instance : Named RouterMode where
  all := [.shove, .walkaround, .markObstacles]
  name
    | .shove => "Shove"
    | .walkaround => "Walkaround"
    | .markObstacles => "MarkObstacles"

instance : Named Posture where
  all := [.diagonalFirst, .straightFirst]
  name
    | .diagonalFirst => "DiagonalFirst"
    | .straightFirst => "StraightFirst"

instance : FromValue DragMode := ⟨fun how v => (fromValue? how v).map DragMode.mk⟩
instance : ToValue DragMode := ⟨fun m => toValue m.bits⟩

namespace Options

def fields : List String :=
  ["router_mode", "drag_mode_bits", "auto_confirm_locked", "snap_radius_nm", "key_bindings"]

/-- The key bindings of a record, if it gives any. -/
def readBindings (r : Record) : Option (List (String × String)) :=
  match r.field? "key_bindings" with
  | some v => tableOf? String r.how v
  | none => some standardBindings

end Options

instance : FromValue Options where
  fromValue? how v := do
    let r ← v.record? how Options.fields
    return {
      routerMode := ← r.get "router_mode"
      dragMode := ← r.getD "drag_mode_bits" DragMode.standard
      autoConfirmLocked := ← r.getD "auto_confirm_locked" false
      snapRadius := ← r.get "snap_radius_nm"
      keyBindings := ← Options.readBindings r }

instance : ToValue Options where
  toValue o := .table [
    ("router_mode", toValue o.routerMode),
    ("drag_mode_bits", toValue o.dragMode),
    ("auto_confirm_locked", toValue o.autoConfirmLocked),
    ("snap_radius_nm", toValue o.snapRadius),
    ("key_bindings", ofTable o.keyBindings)]

namespace Options

/-- The options that a text gives.  Without a text, or with one that cannot be
read, the standard options are in force. -/
def load (source : Option String) : Options :=
  ((source.bind Toml.read?).bind (fromValue? .lenient)).getD standard

/-- The options as a text. -/
def text (o : Options) : String :=
  Toml.entry "router_mode" (Toml.text (Named.name o.routerMode)) ++
    Toml.entry "drag_mode_bits" (toString o.dragMode.bits.toNat) ++
    Toml.entry "auto_confirm_locked" (toString o.autoConfirmLocked) ++
    Toml.entry "snap_radius_nm" (toString o.snapRadius.toNat) ++
    "\n[key_bindings]\n" ++
    String.join (o.keyBindings.map fun b => Toml.entry b.1 (Toml.text b.2))

end Options

end CopperRoute
