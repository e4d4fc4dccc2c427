import CopperRoute.Arithmetic

/-!
# Points and directions

A `Point` is a board position in nanometres, two coordinate words.  Moving a
point or taking a difference is checked.  Distances and angles are computed on
a `Vec`, the same pair in double precision; every operation on it is one plain
double operation per component, in the order written here.
-/

namespace CopperRoute

/-- A board position, or a displacement, in nanometres. -/
structure Point where
  x : Int32
  y : Int32
  deriving DecidableEq, Repr, Inhabited

namespace Point

/-- Points with the same coordinates are one. -/
theorem ext_toInt {p q : Point} (hx : p.x.toInt = q.x.toInt) (hy : p.y.toInt = q.y.toInt) :
    p = q := by
  cases p
  cases q
  cases Int32.toInt_inj.mp hx
  cases Int32.toInt_inj.mp hy
  rfl

/-- The origin, and the displacement that moves nothing. -/
def zero : Point := ⟨0, 0⟩

/-- The point moved by `d`. -/
def moveBy (p d : Point) : Checked Point := do
  return ⟨← int32 (p.x.toInt + d.x.toInt), ← int32 (p.y.toInt + d.y.toInt)⟩

/-- The displacement that leads from `q` to `p`. -/
def minus (p q : Point) : Checked Point := do
  return ⟨← int32 (p.x.toInt - q.x.toInt), ← int32 (p.y.toInt - q.y.toInt)⟩

end Point

/-- A position or direction in double precision. -/
structure Vec where
  x : Float
  y : Float
  deriving Repr, Inhabited

namespace Vec

def add (v w : Vec) : Vec := ⟨v.x + w.x, v.y + w.y⟩

def sub (v w : Vec) : Vec := ⟨v.x - w.x, v.y - w.y⟩

/-- The vector `s` times as long. -/
def scale (v : Vec) (s : Float) : Vec := ⟨v.x * s, v.y * s⟩

/-- The vector with both components divided by `s`. -/
def divide (v : Vec) (s : Float) : Vec := ⟨v.x / s, v.y / s⟩

def dot (v w : Vec) : Float := v.x * w.x + v.y * w.y

def lengthSquared (v : Vec) : Float := v.dot v

def length (v : Vec) : Float := (v.dot v).sqrt

def distance (v w : Vec) : Float := (v.sub w).length

/-- The vector turned a quarter to the left. -/
def perp (v : Vec) : Vec := ⟨-v.y, v.x⟩

/-- The unit vector of the same direction. -/
def normalize (v : Vec) : Vec := v.scale (1.0 / v.length)

/-- The nearest board position: halves go away from zero, and a coordinate
beyond the board's range stays at its edge. -/
def toPoint (v : Vec) : Point := ⟨nearestInt32 v.x, nearestInt32 v.y⟩

end Vec

/-- The same position in double precision; no coordinate word loses a bit. -/
def Point.toVec (p : Point) : Vec := ⟨Float.ofInt p.x.toInt, Float.ofInt p.y.toInt⟩

/-- The straight-line distance of two points. -/
def Point.distance (p q : Point) : Float := p.toVec.distance q.toVec

end CopperRoute
