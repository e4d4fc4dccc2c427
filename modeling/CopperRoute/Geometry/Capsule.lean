import CopperRoute.Geometry.Segment

/-!
# Capsules

Every piece of copper is drawn with a round brush: a track along its axis, a via
or a pad in one place.  Its outline is a `Capsule`, and the free space between
two outlines is their `gap`.
-/

namespace CopperRoute

/-- A segment with a round brush of the given radius drawn along it. -/
structure Capsule where
  axis : Segment
  radius : Float
  deriving Repr, Inhabited

namespace Capsule

/-- The capsule of a single point. -/
def circle (center : Point) (radius : Float) : Capsule := ⟨⟨center, center⟩, radius⟩

/-- The free space between two capsules, negative where they overlap. -/
def gap (x y : Capsule) : Checked Float := do
  return (← x.axis.separation y.axis) - x.radius - y.radius

end Capsule

end CopperRoute
