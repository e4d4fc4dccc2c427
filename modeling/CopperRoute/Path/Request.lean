import CopperRoute.Item

/-!
# Questions to the path engine, and its answers

While a route runs, its loose end (the **head**) is a path of at most a few
straight pieces from the last fixed point to the pointer, perhaps with a via at
its end.  The session asks the path engine for it with a `RouteRequest` and gets
a `RouteGeometry`.  A drag is answered with all items it changes.
-/

namespace CopperRoute

/-- What the path engine does about copper that is in the way. -/
inductive RouterMode
  | shove
  | walkaround
  /-- Draw through it, and only mark what is in the way. -/
  | markObstacles
  deriving DecidableEq, Repr, Inhabited

/-- Which piece of the head comes first. -/
inductive Posture
  | diagonalFirst
  | straightFirst
  deriving DecidableEq, Repr, Inhabited

def Posture.flipped : Posture → Posture
  | diagonalFirst => straightFirst
  | straightFirst => diagonalFirst

/-- The via at the end of a head. -/
structure HeadVia where
  viaType : ViaType
  /-- The layers that the hole goes through. -/
  span : LayerPair
  diameter : UInt32
  drill : UInt32
  deriving DecidableEq, Repr, Inhabited

/-- The question for a head. -/
structure RouteRequest where
  start : Point
  /-- The copper that the head leaves from. -/
  startItem : Option ItemId
  layer : LayerId
  stop : Point
  /-- The copper under the pointer. -/
  stopItem : Option ItemId
  net : NetCode
  trackWidth : UInt32
  via : Option HeadVia
  mode : RouterMode
  posture : Posture
  /-- Only horizontal and vertical pieces. -/
  ortho : Bool
  /-- Cut the corner off. -/
  rounded : Bool
  deriving DecidableEq, Repr, Inhabited

/-- A head. -/
structure RouteGeometry where
  /-- The tracks from the start on, then the via. -/
  items : List Draft
  /-- The point that was reached. -/
  stop : Point
  /-- The layer on which the route goes on. -/
  stopLayer : LayerId
  /-- The head ends on copper of its own net. -/
  reachedTarget : Bool
  /-- The length of the tracks. -/
  length : Float
  /-- The items in the way. -/
  collisions : List ItemId
  deriving Repr, Inhabited

/-- The items that a drag changes, and the items in its way. -/
structure DragGeometry where
  modified : List Item
  collisions : List ItemId
  deriving DecidableEq, Repr, Inhabited

/-- Why the path engine has no answer. -/
inductive EngineFailure
  | noWorld
  /-- The item that is in the way. -/
  | noSolution (hit : ItemId)
  deriving DecidableEq, Repr, Inhabited

def EngineFailure.message : EngineFailure → String
  | noWorld => "Pfad-Engine hat keine Board-Welt geladen"
  | noSolution hit => s!"keine geometrische Lösung (Konflikt mit Item {hit})"

/-- Why no route can start at a place. -/
inductive StartRefusal
  | noWorld
  | tooClose (hit : ItemId)
  | unknownItem (id : ItemId)
  | notOnLayer (id : ItemId) (layer : LayerId)
  deriving DecidableEq, Repr, Inhabited

def StartRefusal.message : StartRefusal → String
  | noWorld => EngineFailure.noWorld.message
  | tooClose hit => s!"Der Routing-Start verletzt den Mindestabstand zu Item {hit}."
  | unknownItem id => s!"Start-Item {id} existiert nicht."
  | notOnLayer id layer => s!"Start-Item {id} liegt nicht auf Layer {layer}."

/-- Why a head cannot go on on another layer. -/
inductive LayerRefusal
  | noWorld
  | notCopper (layer : LayerId)
  deriving DecidableEq, Repr, Inhabited

def LayerRefusal.message : LayerRefusal → String
  | noWorld => EngineFailure.noWorld.message
  | notCopper layer => s!"Layer {layer} ist keine Kupferlage des Boards."

/-- How a head gets to another layer. -/
inductive LayerSwitch
  /-- It starts on copper that reaches the layer. -/
  | direct
  | viaRequired
  | refused (reason : LayerRefusal)
  deriving DecidableEq, Repr, Inhabited

end CopperRoute
