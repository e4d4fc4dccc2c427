import CopperRoute.Proofs.Runs
import Mathlib.Algebra.Order.Ring.Abs
import Mathlib.Tactic.GCongr
import Mathlib.Tactic.Positivity
import Mathlib.Tactic.Ring

/-!
# How far the points of a turn may lie apart

The turn that three points make is the sign of the area that the view sweeps (`sweep`), a difference
of two products.  Coordinates are words, and their differences need one bit more, so the products
and their difference need up to 65 bits.  They are computed in double words of 64.

* Two segments get an answer exactly when the four turns between them **fit**
  (`Segment.TurnsFit`).
* In a rectangle they always do as long as its area is below `2 ^ 63`, and in a larger one there are
  points for which they do not (`Segment.intersects_answers_iff`).

The difference of the products is no larger than the area of the rectangle either, for in whichever
way three points lie in it, what they sweep fits in (`abs_sub_mul_le`).
-/

namespace CopperRoute

/-- **In the range of a double word.** -/
def FitsInt64 (v : Int) : Prop := -9223372036854775808 ≤ v ∧ v ≤ 9223372036854775807

instance (v : Int) : Decidable (FitsInt64 v) := inferInstanceAs (Decidable (_ ∧ _))

theorem int64_eq_ok {v w : Int} : int64 v = .ok w ↔ FitsInt64 v ∧ v = w := by
  unfold int64 FitsInt64
  split
  · next hfits => simp [hfits]
  · next hfits => simp [hfits]

theorem fitsInt64_of_abs {v : Int} (h : |v| < 2 ^ 63) : FitsInt64 v := by
  have hrange := abs_lt.mp h
  unfold FitsInt64
  omega

/-- Twice the area that the view from `a` sweeps when it swings from `b` to `c`, negative when it
swings to the right. -/
def sweep (a b c : Point) : Int :=
  (b.x.toInt - a.x.toInt) * (c.y.toInt - a.y.toInt) -
    (b.y.toInt - a.y.toInt) * (c.x.toInt - a.x.toInt)

/-- **A turn fits**: both products and their difference are in the range of a double word. -/
structure TurnFits (a b c : Point) : Prop where
  left : FitsInt64 ((b.x.toInt - a.x.toInt) * (c.y.toInt - a.y.toInt))
  right : FitsInt64 ((b.y.toInt - a.y.toInt) * (c.x.toInt - a.x.toInt))
  difference : FitsInt64 (sweep a b c)

/-- A turn that fits is the sign of what is swept, and no other turn has an answer. -/
theorem orientation_eq_ok {a b c : Point} {o : Int} :
    orientation a b c = .ok o ↔ TurnFits a b c ∧ (sweep a b c).sign = o := by
  simp only [orientation, Checked.bind_eq_ok, Checked.pure_eq_ok, int64_eq_ok]
  constructor
  · rintro ⟨_, ⟨hleft, rfl⟩, _, ⟨hright, rfl⟩, _, ⟨hdifference, rfl⟩, hsign⟩
    exact ⟨⟨hleft, hright, hdifference⟩, hsign⟩
  · rintro ⟨hfits, hsign⟩
    exact ⟨_, ⟨hfits.left, rfl⟩, _, ⟨hfits.right, rfl⟩, _, ⟨hfits.difference, rfl⟩, hsign⟩

namespace Segment

/-- **The turns between two segments fit**: those of each one with the ends of the other. -/
structure TurnsFit (s t : Segment) : Prop where
  toStart : TurnFits s.start s.stop t.start
  toStop : TurnFits s.start s.stop t.stop
  fromStart : TurnFits t.start t.stop s.start
  fromStop : TurnFits t.start t.stop s.stop

/-- The answer that the signs of the four turns give. -/
def verdict (s t : Segment) : Bool :=
  let o₁ := (sweep s.start s.stop t.start).sign
  let o₂ := (sweep s.start s.stop t.stop).sign
  let o₃ := (sweep t.start t.stop s.start).sign
  let o₄ := (sweep t.start t.stop s.stop).sign
  (o₁ != o₂ && o₃ != o₄) ||
    (o₁ == 0 && s.boxHolds t.start) || (o₂ == 0 && s.boxHolds t.stop) ||
    (o₃ == 0 && t.boxHolds s.start) || (o₄ == 0 && t.boxHolds s.stop)

/-- Whether two segments meet is answered exactly when the turns between them fit, and by their
signs. -/
theorem intersects_eq_ok {s t : Segment} {r : Bool} :
    s.intersects t = .ok r ↔ s.TurnsFit t ∧ s.verdict t = r := by
  simp only [intersects, Checked.bind_eq_ok, Checked.pure_eq_ok, orientation_eq_ok]
  constructor
  · rintro ⟨_, ⟨h₁, rfl⟩, _, ⟨h₂, rfl⟩, _, ⟨h₃, rfl⟩, _, ⟨h₄, rfl⟩, hanswer⟩
    exact ⟨⟨h₁, h₂, h₃, h₄⟩, hanswer⟩
  · rintro ⟨hfit, hanswer⟩
    exact ⟨_, ⟨hfit.toStart, rfl⟩, _, ⟨hfit.toStop, rfl⟩, _, ⟨hfit.fromStart, rfl⟩, _,
      ⟨hfit.fromStop, rfl⟩, hanswer⟩

theorem exists_intersects_iff {s t : Segment} :
    (∃ r, s.intersects t = .ok r) ↔ s.TurnsFit t := by
  simp only [intersects_eq_ok, exists_and_left, exists_eq', and_true]

end Segment

/-- Two displacements that point to opposite sides are together as wide as their difference. -/
theorem abs_add_abs_of_opposite {p q : Int} (h : p * q ≤ 0) : |p| + |q| = |p - q| := by
  rcases mul_nonpos_iff.mp h with ⟨hp, hq⟩ | ⟨hp, hq⟩
  · rw [abs_of_nonneg hp, abs_of_nonpos hq, abs_of_nonneg (by omega)]
    omega
  · rw [abs_of_nonpos hp, abs_of_nonneg hq, abs_of_nonpos (by omega)]
    omega

/-- Where one pair of displacements points to opposite sides, the products share the width. -/
theorem abs_sub_mul_le_of_opposite {p q r s w h : Int} (hwidth : |p - q| ≤ w) (hr : |r| ≤ h)
    (hs : |s| ≤ h) (hsides : p * q ≤ 0) : |p * s - r * q| ≤ w * h := by
  have hh : 0 ≤ h := (abs_nonneg r).trans hr
  calc |p * s - r * q|
      ≤ |p * s| + |r * q| := abs_sub _ _
    _ = |p| * |s| + |r| * |q| := by rw [abs_mul, abs_mul]
    _ ≤ |p| * h + h * |q| := by gcongr
    _ = (|p| + |q|) * h := by ring
    _ = |p - q| * h := by rw [abs_add_abs_of_opposite hsides]
    _ ≤ w * h := by gcongr

/-- Two numbers of one sign differ by no more than the larger of them. -/
theorem abs_sub_le_of_same_sign {x y n : Int} (hx : |x| ≤ n) (hy : |y| ≤ n) (h : 0 ≤ x * y) :
    |x - y| ≤ n := by
  have hx' := abs_le.mp hx
  have hy' := abs_le.mp hy
  rcases mul_nonneg_iff.mp h with ⟨hx₀, hy₀⟩ | ⟨hx₀, hy₀⟩
  · exact abs_sub_le_of_nonneg_of_le hx₀ hx'.2 hy₀ hy'.2
  · rw [abs_sub_comm, ← neg_sub_neg]
    exact abs_sub_le_of_nonneg_of_le (by omega) (by omega) (by omega) (by omega)

theorem abs_mul_le {p s w h : Int} (hp : |p| ≤ w) (hs : |s| ≤ h) : |p * s| ≤ w * h := by
  have hw : 0 ≤ w := (abs_nonneg p).trans hp
  rw [abs_mul]
  gcongr

/-- **What three points of a rectangle sweep is no larger than the rectangle.** -/
theorem abs_sub_mul_le {p q r s w h : Int} (hp : |p| ≤ w) (hq : |q| ≤ w) (hpq : |p - q| ≤ w)
    (hr : |r| ≤ h) (hs : |s| ≤ h) (hrs : |r - s| ≤ h) : |p * s - r * q| ≤ w * h := by
  by_cases hx : p * q ≤ 0
  · exact abs_sub_mul_le_of_opposite hpq hr hs hx
  by_cases hy : r * s ≤ 0
  · rw [abs_sub_comm, mul_comm w h]
    exact abs_sub_mul_le_of_opposite hrs hp hq hy
  · -- no displacement changes the side, so both products have one sign
    have hsame : 0 ≤ p * s * (r * q) := by
      have hsides : 0 ≤ p * q * (r * s) := mul_nonneg (by omega) (by omega)
      calc 0 ≤ p * q * (r * s) := hsides
        _ = p * s * (r * q) := by ring
    exact abs_sub_le_of_same_sign (abs_mul_le hp hs)
      (mul_comm r q ▸ abs_mul_le hq hr) hsame

namespace Segment

/-- **Two segments lie in a rectangle** of this width and height: no two of their ends are further
apart. -/
def LieWithin (s t : Segment) (width height : UInt32) : Prop :=
  ∀ p ∈ [s.start, s.stop, t.start, t.stop], ∀ q ∈ [s.start, s.stop, t.start, t.stop],
    |p.x.toInt - q.x.toInt| ≤ width.toNat ∧ |p.y.toInt - q.y.toInt| ≤ height.toNat

variable {s t : Segment} {width height : UInt32}

/-- A turn between points of a rectangle fits when the area of the rectangle does. -/
theorem LieWithin.turnFits (h : s.LieWithin t width height)
    (harea : width.toNat * height.toNat < 2 ^ 63) {a b c : Point}
    (ha : a ∈ [s.start, s.stop, t.start, t.stop]) (hb : b ∈ [s.start, s.stop, t.start, t.stop])
    (hc : c ∈ [s.start, s.stop, t.start, t.stop]) : TurnFits a b c := by
  have hsmall : (width.toNat : Int) * height.toNat < 2 ^ 63 := by exact_mod_cast harea
  obtain ⟨hbx, hby⟩ := h b hb a ha
  obtain ⟨hcx, hcy⟩ := h c hc a ha
  obtain ⟨hx, hy⟩ := h b hb c hc
  have hx' : |b.x.toInt - a.x.toInt - (c.x.toInt - a.x.toInt)| ≤ width.toNat := by
    rwa [sub_sub_sub_cancel_right]
  have hy' : |b.y.toInt - a.y.toInt - (c.y.toInt - a.y.toInt)| ≤ height.toNat := by
    rwa [sub_sub_sub_cancel_right]
  constructor
  · exact fitsInt64_of_abs ((abs_mul_le hbx hcy).trans_lt hsmall)
  · rw [mul_comm] at hsmall
    exact fitsInt64_of_abs ((abs_mul_le hby hcx).trans_lt hsmall)
  · exact fitsInt64_of_abs ((abs_sub_mul_le hbx hcx hx' hby hcy hy').trans_lt hsmall)

theorem LieWithin.turnsFit (h : s.LieWithin t width height)
    (harea : width.toNat * height.toNat < 2 ^ 63) : s.TurnsFit t := by
  constructor <;> exact h.turnFits harea (by simp) (by simp) (by simp)

/-- The point that lies this far from the lowest corner of all positions. -/
def fromLowest (width height : UInt32) : Point :=
  ⟨Int32.ofInt (width.toNat - 2147483648), Int32.ofInt (height.toNat - 2147483648)⟩

theorem toInt_fromLowest (width height : UInt32) :
    (fromLowest width height).x.toInt = width.toNat - 2147483648 ∧
      (fromLowest width height).y.toInt = height.toNat - 2147483648 := by
  have hwidth := width.toNat_lt
  have hheight := height.toNat_lt
  exact ⟨Int32.toInt_ofInt_of_le (by omega) (by omega),
    Int32.toInt_ofInt_of_le (by omega) (by omega)⟩

/-- The lower side of a rectangle at the lowest corner of all positions. -/
def lowerSide (width : UInt32) : Segment := ⟨fromLowest 0 0, fromLowest width 0⟩

/-- The upper left corner of that rectangle. -/
def upperCorner (height : UInt32) : Segment := ⟨fromLowest 0 height, fromLowest 0 height⟩

theorem lieWithin_lowerSide (width height : UInt32) :
    (lowerSide width).LieWithin (upperCorner height) width height := by
  have hleft : |(-2147483648 - (width.toNat - 2147483648) : Int)| ≤ width.toNat := by
    rw [abs_le]
    omega
  have hheight : |(-2147483648 - (height.toNat - 2147483648) : Int)| ≤ height.toNat := by
    rw [abs_le]
    omega
  simp [LieWithin, lowerSide, upperCorner, toInt_fromLowest, hleft, hheight]

/-- What the lower side and the corner above it sweep is the whole rectangle. -/
theorem area_of_turnsFit (h : (lowerSide width).TurnsFit (upperCorner height)) :
    width.toNat * height.toNat < 2 ^ 63 := by
  have hfits := h.toStart.left.2
  simp only [lowerSide, upperCorner, toInt_fromLowest] at hfits
  have harea : (width.toNat : Int) * height.toNat ≤ 9223372036854775807 := by simpa using hfits
  exact_mod_cast Int.lt_add_one_of_le harea

/-- **How far the points may lie apart.**  Whether two segments meet is answered exactly when the
turns between them fit.  All segments of a rectangle get an answer exactly when its area is below
`2 ^ 63`. -/
theorem intersects_answers_iff (s t : Segment) (width height : UInt32) :
    ((∃ r, s.intersects t = .ok r) ↔ s.TurnsFit t) ∧
      ((∀ s' t' : Segment, s'.LieWithin t' width height → ∃ r, s'.intersects t' = .ok r) ↔
        width.toNat * height.toNat < 2 ^ 63) := by
  refine ⟨exists_intersects_iff, fun hall => ?_, fun harea s' t' hwithin => ?_⟩
  · exact area_of_turnsFit
      (exists_intersects_iff.mp (hall _ _ (lieWithin_lowerSide width height)))
  · exact exists_intersects_iff.mpr (hwithin.turnsFit harea)

/-- The largest square in which all segments get an answer measures about three metres. -/
example : (3037000499 : UInt32).toNat * (3037000499 : UInt32).toNat < 2 ^ 63 ∧
    ¬ (3037000500 : UInt32).toNat * (3037000500 : UInt32).toNat < 2 ^ 63 := by
  decide

/-- The two diagonals of the square of all positions get none. -/
theorem not_intersects_answers : ¬ ∀ s t : Segment, ∃ r, s.intersects t = .ok r := by
  intro hall
  obtain ⟨r, hanswer⟩ := hall
    ⟨⟨-2147483648, -2147483648⟩, ⟨2147483647, 2147483647⟩⟩
    ⟨⟨-2147483648, 2147483647⟩, ⟨2147483647, -2147483648⟩⟩
  cases hanswer

end Segment

end CopperRoute
