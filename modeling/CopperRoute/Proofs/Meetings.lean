import CopperRoute.Proofs.Orientations
import Mathlib.Algebra.Order.Field.Basic
import Mathlib.Algebra.Order.Field.Rat
import Mathlib.Data.Rat.Cast.Order
import Mathlib.Tactic.FieldSimp
import Mathlib.Tactic.Linarith
import Mathlib.Tactic.LinearCombination

/-!
# Where two segments meet

Whether two segments share a point is decided from signs of whole numbers and from upright
rectangles.  Here it is compared with what is meant: some point of the plane lies a share of the
way along the one segment and a share of the way along the other (`Segment.Meets`).

Every segment has its **side function**, which is zero on its line, and which at the ends of another
segment is what the view sweeps.

* When its sign changes along both segments, the zeros on the two lines are one point
  (`meets_of_crossing`).
* When it does not change along one of them, but they meet, then this one is in line with the other
  (`sweep_eq_zero_of_meets`), and one of the two holds an end of the other (`holds_end_of_meets`).
* A segment holds a board position exactly when the position is on its line and in the rectangle
  around it (`holds_place_iff`).

`Segment.intersects_iff_meets` puts this together.  It asks nothing of the four ends but that the
turns between them fit: the segments may touch, run along each other or be single points.
-/

namespace CopperRoute

/-- Between numbers that are not on the same side of zero there is a zero. -/
theorem exists_zero_between {p q : ℚ} (hne : p ≠ q) (hsides : p * q ≤ 0) :
    ∃ u : ℚ, 0 ≤ u ∧ u ≤ 1 ∧ (1 - u) * p + u * q = 0 := by
  have hdiff : p - q ≠ 0 := sub_ne_zero.mpr hne
  have hzero : (1 - p / (p - q)) * p + p / (p - q) * q = 0 := by
    field_simp
    ring
  rcases mul_nonpos_iff.mp hsides with ⟨hp, hq⟩ | ⟨hp, hq⟩
  · have hpos : 0 < p - q := lt_of_le_of_ne (by linarith) hdiff.symm
    exact ⟨_, div_nonneg hp hpos.le, (div_le_one hpos).mpr (by linarith), hzero⟩
  · have hneg : p - q < 0 := lt_of_le_of_ne (by linarith) hdiff
    exact ⟨_, div_nonneg_of_nonpos hp hneg.le, (div_le_one_of_neg hneg).mpr (by linarith), hzero⟩

/-- **Between values of different signs** there is a zero on the way from one to the other. -/
theorem exists_zero_of_sign_ne {p q : Int} (h : p.sign ≠ q.sign) :
    ∃ u : ℚ, 0 ≤ u ∧ u ≤ 1 ∧ (1 - u) * p + u * q = 0 := by
  have hne : p ≠ q := fun hsame => h (congrArg Int.sign hsame)
  have hsides : p * q ≤ 0 := by
    by_contra hpos
    rcases mul_pos_iff.mp (not_le.mp hpos) with ⟨hp, hq⟩ | ⟨hp, hq⟩
    · exact h ((Int.sign_eq_one_of_pos hp).trans (Int.sign_eq_one_of_pos hq).symm)
    · exact h ((Int.sign_eq_neg_one_of_neg hp).trans (Int.sign_eq_neg_one_of_neg hq).symm)
  exact exists_zero_between (by exact_mod_cast hne) (by exact_mod_cast hsides)

/-- There is no zero between positive numbers. -/
theorem pos_of_pos {p q u : ℚ} (hp : 0 < p) (hq : 0 < q) (hu₀ : 0 ≤ u) (hu₁ : u ≤ 1) :
    0 < (1 - u) * p + u * q := by
  rcases hu₀.eq_or_lt with rfl | hu₀
  · simpa using hp
  · exact add_pos_of_nonneg_of_pos (mul_nonneg (by linarith) hp.le) (mul_pos hu₀ hq)

/-- Where the sign does not change, there is a zero only when all is zero. -/
theorem eq_zero_of_sign_eq {p q : Int} (h : p.sign = q.sign) {u : ℚ} (hu₀ : 0 ≤ u) (hu₁ : u ≤ 1)
    (hzero : (1 - u) * p + u * q = 0) : p = 0 ∧ q = 0 := by
  rcases lt_trichotomy p 0 with hp | rfl | hp
  · have hq : q < 0 := Int.sign_eq_neg_one_iff_neg.mp (h ▸ Int.sign_eq_neg_one_of_neg hp)
    have hpos := pos_of_pos (p := -p) (q := -q) (by exact_mod_cast Int.neg_pos_of_neg hp)
      (by exact_mod_cast Int.neg_pos_of_neg hq) hu₀ hu₁
    linarith
  · exact ⟨rfl, Int.sign_eq_zero_iff_zero.mp (h ▸ Int.sign_zero)⟩
  · have hq : 0 < q := Int.sign_eq_one_iff_pos.mp (h ▸ Int.sign_eq_one_of_pos hp)
    have hpos := pos_of_pos (p := (p : ℚ)) (q := q) (by exact_mod_cast hp) (by exact_mod_cast hq)
      hu₀ hu₁
    linarith

/-- The place of a board position in the plane. -/
def Point.place (p : Point) : ℚ × ℚ := (p.x.toInt, p.y.toInt)

/-- Different points are at different places. -/
theorem Point.place_injective : Function.Injective Point.place := by
  intro p q h
  obtain ⟨hx, hy⟩ := Prod.mk.inj h
  exact Point.ext_toInt (by exact_mod_cast hx) (by exact_mod_cast hy)

namespace Segment

/-- The point of the plane that is reached after a share of the way from start to stop. -/
def pointAt (s : Segment) (u : ℚ) : ℚ × ℚ :=
  (s.start.x.toInt + u * (s.stop.x.toInt - s.start.x.toInt),
    s.start.y.toInt + u * (s.stop.y.toInt - s.start.y.toInt))

/-- **A segment holds a point**: the point lies some share of the way from start to stop. -/
def Holds (s : Segment) (z : ℚ × ℚ) : Prop := ∃ u : ℚ, 0 ≤ u ∧ u ≤ 1 ∧ s.pointAt u = z

/-- **Two segments meet**: some point of the plane is held by both. -/
def Meets (s t : Segment) : Prop := ∃ z, s.Holds z ∧ t.Holds z

/-- On which side of the line through the segment a point lies, and how far away. -/
def side (s : Segment) (z : ℚ × ℚ) : ℚ :=
  (s.stop.x.toInt - s.start.x.toInt) * (z.2 - s.start.y.toInt) -
    (s.stop.y.toInt - s.start.y.toInt) * (z.1 - s.start.x.toInt)

variable {s t : Segment}

/-- A segment begins at its start. -/
@[simp] theorem pointAt_zero (s : Segment) : s.pointAt 0 = s.start.place := by
  simp [pointAt, Point.place]

/-- A segment ends at its stop. -/
@[simp] theorem pointAt_one (s : Segment) : s.pointAt 1 = s.stop.place := by
  simp [pointAt, Point.place]

/-- At a board position it is what the view sweeps. -/
theorem side_place (s : Segment) (p : Point) : s.side p.place = sweep s.start s.stop p := by
  simp [side, sweep, Point.place]

/-- Along another segment it is a straight function. -/
theorem side_pointAt (s t : Segment) (v : ℚ) :
    s.side (t.pointAt v) =
      (1 - v) * sweep s.start s.stop t.start + v * sweep s.start s.stop t.stop := by
  rw [← side_place, ← side_place]
  simp only [side, pointAt, Point.place]
  ring

/-- A point of a segment is on neither side of it. -/
theorem side_of_holds {z : ℚ × ℚ} (h : s.Holds z) : s.side z = 0 := by
  obtain ⟨u, _, _, rfl⟩ := h
  simp only [side, pointAt]
  ring

/-- Segments meet each other. -/
theorem Meets.symm (h : s.Meets t) : t.Meets s := by
  obtain ⟨z, hs, ht⟩ := h
  exact ⟨z, ht, hs⟩

/-- What is parallel to two directions that are not parallel is nothing. -/
theorem eq_zero_of_parallel {a b c d x y : ℚ} (hab : a * y = b * x) (hcd : c * y = d * x)
    (hne : a * d - b * c ≠ 0) : x = 0 ∧ y = 0 := by
  constructor
  · refine (mul_eq_zero.mp ?_).resolve_left hne
    linear_combination c * hab - a * hcd
  · refine (mul_eq_zero.mp ?_).resolve_left hne
    linear_combination d * hab - b * hcd

/-- **Lines that are not parallel** have one point in common at most. -/
theorem eq_of_sides {z w : ℚ × ℚ} (hsz : s.side z = 0) (hsw : s.side w = 0) (htz : t.side z = 0)
    (htw : t.side w = 0)
    (hne : sweep s.start s.stop t.start ≠ sweep s.start s.stop t.stop) : z = w := by
  have hdiff : s.side t.stop.place - s.side t.start.place ≠ 0 := by
    rw [side_place, side_place, sub_ne_zero]
    exact_mod_cast hne.symm
  simp only [side, Point.place] at hsz hsw htz htw hdiff
  obtain ⟨hx, hy⟩ := eq_zero_of_parallel (x := z.1 - w.1) (y := z.2 - w.2)
    (a := s.stop.x.toInt - s.start.x.toInt) (b := s.stop.y.toInt - s.start.y.toInt)
    (c := t.stop.x.toInt - t.start.x.toInt) (d := t.stop.y.toInt - t.start.y.toInt)
    (by linear_combination hsz - hsw) (by linear_combination htz - htw)
    (fun hzero => hdiff (by linear_combination hzero))
  exact Prod.ext (sub_eq_zero.mp hx) (sub_eq_zero.mp hy)

/-- **Segments that cross meet**, when the sign changes along both. -/
theorem meets_of_crossing
    (hs : (sweep s.start s.stop t.start).sign ≠ (sweep s.start s.stop t.stop).sign)
    (ht : (sweep t.start t.stop s.start).sign ≠ (sweep t.start t.stop s.stop).sign) :
    s.Meets t := by
  obtain ⟨v, hv₀, hv₁, hv⟩ := exists_zero_of_sign_ne hs
  obtain ⟨u, hu₀, hu₁, hu⟩ := exists_zero_of_sign_ne ht
  have hheld : s.Holds (s.pointAt u) := ⟨u, hu₀, hu₁, rfl⟩
  have hheld' : t.Holds (t.pointAt v) := ⟨v, hv₀, hv₁, rfl⟩
  have hsame : t.pointAt v = s.pointAt u :=
    eq_of_sides ((side_pointAt s t v).trans hv) (side_of_holds hheld) (side_of_holds hheld')
      ((side_pointAt t s u).trans hu) fun h => hs (congrArg Int.sign h)
  exact ⟨s.pointAt u, hheld, hsame ▸ hheld'⟩

/-- What is parallel to a direction is a multiple of it. -/
theorem exists_multiple {a b x y : ℚ} (ha : a ≠ 0) (h : a * y = b * x) :
    ∃ u, u * a = x ∧ u * b = y := by
  refine ⟨x / a, div_mul_cancel₀ x ha, ?_⟩
  field_simp
  linear_combination -h

/-- A segment of two points has a direction. -/
theorem direction_ne_zero (hne : s.start ≠ s.stop) :
    (s.stop.x.toInt : ℚ) - s.start.x.toInt ≠ 0 ∨ (s.stop.y.toInt : ℚ) - s.start.y.toInt ≠ 0 := by
  by_contra hzero
  rw [not_or, not_not, not_not, sub_eq_zero, sub_eq_zero] at hzero
  exact hne (Point.ext_toInt (by exact_mod_cast hzero.1.symm) (by exact_mod_cast hzero.2.symm))

/-- Every point on the line is reached after some share of the way. -/
theorem exists_pointAt {z : ℚ × ℚ} (hne : s.start ≠ s.stop) (hside : s.side z = 0) :
    ∃ u, s.pointAt u = z := by
  have hparallel := sub_eq_zero.mp hside
  rcases direction_ne_zero hne with hx | hy
  · obtain ⟨u, hux, huy⟩ := exists_multiple hx hparallel
    exact ⟨u, Prod.ext (by simp [pointAt, hux]) (by simp [pointAt, huy])⟩
  · obtain ⟨u, huy, hux⟩ := exists_multiple hy hparallel.symm
    exact ⟨u, Prod.ext (by simp [pointAt, hux]) (by simp [pointAt, huy])⟩

/-- The share is known from the point. -/
theorem pointAt_injective (hne : s.start ≠ s.stop) : Function.Injective s.pointAt := by
  intro u v h
  have hx := add_left_cancel (congrArg Prod.fst h)
  have hy := add_left_cancel (congrArg Prod.snd h)
  rcases direction_ne_zero hne with hne | hne
  · exact mul_right_cancel₀ hne hx
  · exact mul_right_cancel₀ hne hy

/-- A value lies between two others exactly when its parameter lies in the unit interval. -/
theorem between_iff_of_lt {a b c : Int} {u : ℚ} (hlt : a < b) (h : (a : ℚ) + u * (b - a) = c) :
    a ≤ c ∧ c ≤ b ↔ 0 ≤ u ∧ u ≤ 1 := by
  have hpos : (0 : ℚ) < b - a := sub_pos.mpr (by exact_mod_cast hlt)
  rw [← Int.cast_le (R := ℚ), ← Int.cast_le (R := ℚ), ← h, le_add_iff_nonneg_right,
    mul_nonneg_iff_of_pos_right hpos, ← le_sub_iff_add_le', mul_le_iff_le_one_left hpos]

/-- A number lies between two others when its share of the way from one to the other is a share. -/
theorem between_iff {a b c : Int} {u : ℚ} (h : (a : ℚ) + u * (b - a) = c) :
    min a b ≤ c ∧ c ≤ max a b ↔ a = b ∨ 0 ≤ u ∧ u ≤ 1 := by
  rcases lt_trichotomy a b with hlt | rfl | hlt
  · rw [min_eq_left hlt.le, max_eq_right hlt.le, between_iff_of_lt hlt h, or_iff_right hlt.ne]
  · have hsame : a = c := by
      rw [sub_self, mul_zero, add_zero] at h
      exact_mod_cast h
    simp [hsame]
  · -- seen from the other end the share is what is left
    have hback : (b : ℚ) + (1 - u) * (a - b) = c := by linear_combination h
    rw [min_eq_right hlt.le, max_eq_left hlt.le, between_iff_of_lt hlt hback,
      or_iff_right hlt.ne', sub_nonneg, sub_le_self_iff, and_comm]

/-- The rectangle around a segment holds the points between its ends in both coordinates. -/
theorem boxHolds_iff {p : Point} :
    s.boxHolds p = true ↔
      (min s.start.x.toInt s.stop.x.toInt ≤ p.x.toInt ∧
          p.x.toInt ≤ max s.start.x.toInt s.stop.x.toInt) ∧
        min s.start.y.toInt s.stop.y.toInt ≤ p.y.toInt ∧
          p.y.toInt ≤ max s.start.y.toInt s.stop.y.toInt := by
  simp [boxHolds, and_assoc]

/-- On the line of a segment, its rectangle holds what lies a share of the way along it. -/
theorem boxHolds_pointAt_iff {p : Point} {u : ℚ} (hne : s.start ≠ s.stop)
    (h : s.pointAt u = p.place) : s.boxHolds p = true ↔ 0 ≤ u ∧ u ≤ 1 := by
  rw [boxHolds_iff, between_iff (congrArg Prod.fst h), between_iff (congrArg Prod.snd h)]
  constructor
  · rintro ⟨hx | hshare, hy | hshare⟩
    · exact absurd (Point.ext_toInt hx hy) hne
    all_goals exact hshare
  · exact fun hshare => ⟨.inr hshare, .inr hshare⟩

/-- The rectangle of a single point holds just this point. -/
theorem boxHolds_single_iff {p : Point} (hpoint : s.start = s.stop) :
    s.boxHolds p = true ↔ s.start = p := by
  rw [boxHolds_iff, ← hpoint, min_self, max_self, min_self, max_self]
  constructor
  · rintro ⟨hx, hy⟩
    exact Point.ext_toInt (le_antisymm hx.1 hx.2) (le_antisymm hy.1 hy.2)
  · rintro rfl
    simp

/-- A segment that is a single point holds only that. -/
theorem holds_single_iff {z : ℚ × ℚ} (hpoint : s.start = s.stop) :
    s.Holds z ↔ s.start.place = z := by
  have hstays : ∀ u, s.pointAt u = s.start.place := by simp [pointAt, Point.place, ← hpoint]
  constructor
  · rintro ⟨u, _, _, rfl⟩
    exact (hstays u).symm
  · intro hz
    exact ⟨0, le_rfl, zero_le_one, (hstays 0).trans hz⟩

/-- **A segment holds a board position** exactly when the position is on its line and in its
rectangle. -/
theorem holds_place_iff {p : Point} :
    s.Holds p.place ↔ sweep s.start s.stop p = 0 ∧ s.boxHolds p = true := by
  by_cases hpoint : s.start = s.stop
  · have hsweep : sweep s.start s.stop p = 0 := by simp [sweep, hpoint]
    rw [holds_single_iff hpoint, boxHolds_single_iff hpoint, Point.place_injective.eq_iff]
    exact (and_iff_right hsweep).symm
  · have hline : s.side p.place = 0 ↔ sweep s.start s.stop p = 0 := by
      rw [side_place, Int.cast_eq_zero]
    constructor
    · rintro ⟨u, hu₀, hu₁, hu⟩
      exact ⟨hline.mp (side_of_holds ⟨u, hu₀, hu₁, hu⟩),
        (boxHolds_pointAt_iff hpoint hu).mpr ⟨hu₀, hu₁⟩⟩
    · rintro ⟨hsweep, hbox⟩
      obtain ⟨u, hu⟩ := exists_pointAt hpoint (hline.mpr hsweep)
      obtain ⟨hu₀, hu₁⟩ := (boxHolds_pointAt_iff hpoint hu).mp hbox
      exact ⟨u, hu₀, hu₁, hu⟩

/-- Where two segments meet and the sign does not change, it is zero. -/
theorem sweep_eq_zero_of_meets (h : s.Meets t)
    (hsign : (sweep s.start s.stop t.start).sign = (sweep s.start s.stop t.stop).sign) :
    sweep s.start s.stop t.start = 0 ∧ sweep s.start s.stop t.stop = 0 := by
  obtain ⟨z, hs, v, hv₀, hv₁, rfl⟩ := h
  exact eq_zero_of_sign_eq hsign hv₀ hv₁ ((side_pointAt s t v).symm.trans (side_of_holds hs))

/-- On one line, shares of the way along `t` are shares of the way along `s`. -/
theorem pointAt_eq_of_ends {b c : ℚ} (hstart : s.pointAt b = t.start.place)
    (hstop : s.pointAt c = t.stop.place) (v : ℚ) :
    t.pointAt v = s.pointAt ((1 - v) * b + v * c) := by
  obtain ⟨hbx, hby⟩ := Prod.mk.inj hstart
  obtain ⟨hcx, hcy⟩ := Prod.mk.inj hstop
  refine Prod.ext ?_ ?_
  · simp only [pointAt]
    linear_combination (v - 1) * hbx - v * hcx
  · simp only [pointAt]
    linear_combination (v - 1) * hby - v * hcy

/-- A way that reaches the unit interval ends there, begins there, or runs over zero. -/
theorem unit_or_zero {b c u v : ℚ} (hu₀ : 0 ≤ u) (hu₁ : u ≤ 1) (hv₀ : 0 ≤ v) (hv₁ : v ≤ 1)
    (h : (1 - v) * b + v * c = u) :
    (0 ≤ b ∧ b ≤ 1) ∨ (0 ≤ c ∧ c ≤ 1) ∨ ∃ w : ℚ, 0 ≤ w ∧ w ≤ 1 ∧ (1 - w) * b + w * c = 0 := by
  by_cases hb : 0 ≤ b ∧ b ≤ 1
  · exact .inl hb
  by_cases hc : 0 ≤ c ∧ c ≤ 1
  · exact .inr (.inl hc)
  -- both ends are outside, and not on the same side
  have hbelow : ¬ (b < 0 ∧ c < 0) := by
    rintro ⟨hb, hc⟩
    have := pos_of_pos (neg_pos.mpr hb) (neg_pos.mpr hc) hv₀ hv₁
    linarith
  have habove : ¬ (1 < b ∧ 1 < c) := by
    rintro ⟨hb, hc⟩
    have := pos_of_pos (sub_pos.mpr hb) (sub_pos.mpr hc) hv₀ hv₁
    linarith
  have hopposite : b < 0 ∧ 1 < c ∨ 1 < b ∧ c < 0 := by
    rw [not_and_or, not_le, not_le] at hb hc
    tauto
  right
  right
  rcases hopposite with ⟨hb, hc⟩ | ⟨hb, hc⟩
  · exact exists_zero_between (by linarith) (mul_nonpos_of_nonpos_of_nonneg hb.le (by linarith))
  · exact exists_zero_between (by linarith) (mul_nonpos_of_nonneg_of_nonpos (by linarith) hc.le)

/-- **Segments in line that meet**: one of them holds an end of the other. -/
theorem holds_end_of_meets (h : s.Meets t) (hstart : sweep s.start s.stop t.start = 0)
    (hstop : sweep s.start s.stop t.stop = 0) :
    s.Holds t.start.place ∨ s.Holds t.stop.place ∨ t.Holds s.start.place := by
  obtain ⟨z, hs, ht⟩ := h
  by_cases hpoint : s.start = s.stop
  · rw [holds_single_iff hpoint] at hs
    exact .inr (.inr (hs ▸ ht))
  obtain ⟨b, hb⟩ := exists_pointAt (z := t.start.place) hpoint (by simp [side_place, hstart])
  obtain ⟨c, hc⟩ := exists_pointAt (z := t.stop.place) hpoint (by simp [side_place, hstop])
  have halong := pointAt_eq_of_ends hb hc
  obtain ⟨u, hu₀, hu₁, hu⟩ := hs
  obtain ⟨v, hv₀, hv₁, hv⟩ := ht
  have hshare : (1 - v) * b + v * c = u :=
    pointAt_injective hpoint ((halong v).symm.trans (hv.trans hu.symm))
  rcases unit_or_zero hu₀ hu₁ hv₀ hv₁ hshare with hunit | hunit | ⟨w, hw₀, hw₁, hw⟩
  · exact .inl ⟨b, hunit.1, hunit.2, hb⟩
  · exact .inr (.inl ⟨c, hunit.1, hunit.2, hc⟩)
  · refine .inr (.inr ⟨w, hw₀, hw₁, ?_⟩)
    rw [halong w, hw, pointAt_zero]

/-- **The verdict** is that the ends lie on different sides, or that an end lies on the other
segment. -/
theorem verdict_iff :
    s.verdict t = true ↔
      ((sweep s.start s.stop t.start).sign ≠ (sweep s.start s.stop t.stop).sign ∧
          (sweep t.start t.stop s.start).sign ≠ (sweep t.start t.stop s.stop).sign) ∨
        s.Holds t.start.place ∨ s.Holds t.stop.place ∨ t.Holds s.start.place ∨
          t.Holds s.stop.place := by
  simp [verdict, holds_place_iff, or_assoc]

/-- **The signs tell whether two segments meet.** -/
theorem verdict_iff_meets : s.verdict t = true ↔ s.Meets t := by
  rw [verdict_iff]
  constructor
  · have hstart : ∀ s : Segment, s.Holds s.start.place := fun s =>
      ⟨0, le_rfl, zero_le_one, s.pointAt_zero⟩
    have hstop : ∀ s : Segment, s.Holds s.stop.place := fun s =>
      ⟨1, zero_le_one, le_rfl, s.pointAt_one⟩
    rintro (⟨hs, ht⟩ | hheld | hheld | hheld | hheld)
    · exact meets_of_crossing hs ht
    · exact ⟨_, hheld, hstart t⟩
    · exact ⟨_, hheld, hstop t⟩
    · exact ⟨_, hstart s, hheld⟩
    · exact ⟨_, hstop s, hheld⟩
  · intro hmeets
    by_cases hs : (sweep s.start s.stop t.start).sign = (sweep s.start s.stop t.stop).sign
    · obtain ⟨hstart, hstop⟩ := sweep_eq_zero_of_meets hmeets hs
      have hend := holds_end_of_meets hmeets hstart hstop
      tauto
    by_cases ht : (sweep t.start t.stop s.start).sign = (sweep t.start t.stop s.stop).sign
    · obtain ⟨hstart, hstop⟩ := sweep_eq_zero_of_meets hmeets.symm ht
      have hend := holds_end_of_meets hmeets.symm hstart hstop
      tauto
    · exact .inl ⟨hs, ht⟩

/-- **Two segments are said to meet exactly when they do**, whenever the turns between them fit. -/
theorem intersects_iff_meets (s t : Segment) (r : Bool) :
    s.intersects t = .ok r ↔ s.TurnsFit t ∧ (r = true ↔ s.Meets t) := by
  rw [intersects_eq_ok, ← verdict_iff_meets]
  refine and_congr_right fun _ => ?_
  rw [← Bool.eq_iff_iff, eq_comm]

end Segment

end CopperRoute
