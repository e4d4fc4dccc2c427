import CopperRoute.Proofs.HeadGeometry

/-!
# The shape of a head

The engine draws a head in a few pieces, which form an unbroken way from where the request
starts to the point that is reported (`Segment.Path`).  The corner between them takes up the
smaller of the two coordinate differences in both directions, so that one side of it is a diagonal
and nothing is left on the other but a horizontal or a vertical piece (`cutOff_spec`).  Either of
them may be missing, for points that repeat are dropped.

A rounded head has one piece more, which cuts the corner off at an angle of its own.

`World.route_shaped` puts this together with the via at the end of a head and with the copper that
it ends on.
-/

namespace CopperRoute

namespace Segment

/-- **A way from one point to another**: every piece begins where the one before it ends. -/
inductive Path : Point → List Segment → Point → Prop
  | nil (p : Point) : Path p [] p
  | cons {p q : Point} {s : Segment} {rest : List Segment} (hstart : s.start = p)
      (h : Path s.stop rest q) : Path p (s :: rest) q

/-- Horizontal or vertical. -/
def IsStraight (s : Segment) : Prop := s.start.x = s.stop.x ∨ s.start.y = s.stop.y

/-- A segment is straight when one coordinate stays. -/
theorem isStraight_iff {s : Segment} :
    s.IsStraight ↔ s.start.x.toInt = s.stop.x.toInt ∨ s.start.y.toInt = s.stop.y.toInt := by
  rw [IsStraight, Int32.toInt_inj, Int32.toInt_inj]

/-- At an angle of exactly 45 degrees: as far across as up or down. -/
def IsDiagonal (s : Segment) : Prop :=
  (s.stop.x.toInt - s.start.x.toInt).natAbs = (s.stop.y.toInt - s.start.y.toInt).natAbs

/-- The pieces between neighbouring points. -/
def along (points : List Point) : List Segment :=
  (points.zip points.tail).map fun p => ⟨p.1, p.2⟩

/-- A path goes from each point to the next one. -/
theorem along_cons_cons (a b : Point) (rest : List Point) :
    along (a :: b :: rest) = ⟨a, b⟩ :: along (b :: rest) := rfl

/-- A path has one segment less than points. -/
theorem length_along (points : List Point) : (along points).length = points.length - 1 := by
  simp [along]

/-- A path leads from its first point to its last one. -/
theorem path_along {points : List Point} {p q : Point} (hp : points.head? = some p)
    (hq : points.getLast? = some q) : Path p (along points) q := by
  induction points generalizing p with
  | nil => cases hp
  | cons a rest ih =>
      cases hp
      cases rest with
      | nil =>
          cases hq
          exact .nil a
      | cons b rest =>
          have hrest : Path b (along (b :: rest)) q := ih rfl (by simpa using hq)
          exact .cons rfl hrest

/-- When points that repeat are dropped, the pieces without length go. -/
theorem along_dropRepeats (points : List Point) :
    along (dropRepeats points) = (along points).filter fun s => s.start ≠ s.stop := by
  induction points with
  | nil => rfl
  | cons a rest ih =>
      cases rest with
      | nil => rfl
      | cons b rest =>
          rw [dropRepeats, along_cons_cons, List.filter_cons, ← ih]
          by_cases hab : a = b
          · simp [hab]
          · -- behind the drops the next point is still the next one
            obtain ⟨tail, htail⟩ : ∃ tail, dropRepeats (b :: rest) = b :: tail :=
              List.head?_eq_some_iff.mp (head?_dropRepeats (b :: rest))
            simp [hab, htail, along_cons_cons]

end Segment

/-- The tracks of a head are the segments of its path. -/
theorem tracksAlong_eq (r : RouteRequest) (points : List Point) :
    tracksAlong r points =
      (Segment.along points).map fun s => Draft.track s r.trackWidth r.layer r.net := by
  rw [Segment.along, List.map_map]
  rfl

/-- What a diagonal takes up of two coordinate differences: the smaller of the two, in both
directions. -/
def cutOff (dx dy : Int) : Int × Int :=
  let reach : Int := min (dx.natAbs : Int) (dy.natAbs : Int)
  (dx.sign * reach, dy.sign * reach)

/-- A sign does not change the size of a number that is zero along with it. -/
theorem natAbs_sign_mul {d reach : Int} (h : d = 0 → reach = 0) :
    (d.sign * reach).natAbs = reach.natAbs := by
  rcases Int.lt_trichotomy d 0 with hneg | hzero | hpos
  · rw [Int.sign_eq_neg_one_of_neg hneg, Int.neg_one_mul, Int.natAbs_neg]
  · rw [h hzero, Int.mul_zero]
  · rw [Int.sign_eq_one_of_pos hpos, Int.one_mul]

/-- It is a diagonal, and takes up all of the smaller difference. -/
theorem cutOff_spec (dx dy : Int) :
    (cutOff dx dy).1.natAbs = (cutOff dx dy).2.natAbs ∧
      ((cutOff dx dy).1 = dx ∨ (cutOff dx dy).2 = dy) := by
  constructor
  · have hx : dx = 0 → min (dx.natAbs : Int) (dy.natAbs : Int) = 0 := by omega
    have hy : dy = 0 → min (dx.natAbs : Int) (dy.natAbs : Int) = 0 := by omega
    exact (natAbs_sign_mul hx).trans (natAbs_sign_mul hy).symm
  · rcases Nat.le_total dx.natAbs dy.natAbs with hle | hle
    · left
      rw [cutOff, Int.min_eq_left (Int.ofNat_le.mpr hle)]
      exact Int.sign_mul_natAbs dx
    · right
      rw [cutOff, Int.min_eq_right (Int.ofNat_le.mpr hle)]
      exact Int.sign_mul_natAbs dy

/-- A magnitude is that of the whole number. -/
theorem toInt_of_magnitude {v : Int32} {m : Int} (h : magnitude v = .ok m) :
    m = (v.toInt.natAbs : Int) := by
  obtain ⟨a, ha, h⟩ := Checked.bind_eq_ok.mp h
  cases h
  exact toInt_of_int32 ha

/-- A difference of points is one of whole numbers, if it fits. -/
theorem Point.toInt_of_minus {p q d : Point} (h : p.minus q = .ok d) :
    d.x.toInt = p.x.toInt - q.x.toInt ∧ d.y.toInt = p.y.toInt - q.y.toInt := by
  obtain ⟨x, hx, h⟩ := Checked.bind_eq_ok.mp h
  obtain ⟨y, hy, h⟩ := Checked.bind_eq_ok.mp h
  cases h
  exact ⟨toInt_of_int32 hx, toInt_of_int32 hy⟩

/-- **Where the diagonal corner lies**: the diagonal is cut off at the start or at the end. -/
theorem diagonalCorner_eq_ok {start stop corner : Point} {diagonalFirst : Bool}
    (h : diagonalCorner start stop diagonalFirst = .ok corner) :
    ∃ across up : Int, (across, up) =
        cutOff (stop.x.toInt - start.x.toInt) (stop.y.toInt - start.y.toInt) ∧
      if diagonalFirst then
        corner.x.toInt = start.x.toInt + across ∧ corner.y.toInt = start.y.toInt + up
      else corner.x.toInt = stop.x.toInt - across ∧ corner.y.toInt = stop.y.toInt - up := by
  obtain ⟨d, hd, h⟩ := Checked.bind_eq_ok.mp h
  obtain ⟨mx, hmx, h⟩ := Checked.bind_eq_ok.mp h
  obtain ⟨my, hmy, h⟩ := Checked.bind_eq_ok.mp h
  obtain ⟨hdx, hdy⟩ := Point.toInt_of_minus hd
  rw [toInt_of_magnitude hmx, toInt_of_magnitude hmy, hdx, hdy] at h
  refine ⟨_, _, rfl, ?_⟩
  cases diagonalFirst with
  | true =>
      rw [if_pos rfl] at h ⊢
      obtain ⟨x, hx, h⟩ := Checked.bind_eq_ok.mp h
      obtain ⟨y, hy, h⟩ := Checked.bind_eq_ok.mp h
      cases h
      exact ⟨toInt_of_int32 hx, toInt_of_int32 hy⟩
  | false =>
      rw [if_neg (by decide)] at h ⊢
      obtain ⟨x, hx, h⟩ := Checked.bind_eq_ok.mp h
      obtain ⟨y, hy, h⟩ := Checked.bind_eq_ok.mp h
      cases h
      exact ⟨toInt_of_int32 hx, toInt_of_int32 hy⟩

/-- The two pieces at a diagonal corner, in the order of the posture. -/
def Posture.inOrder (posture : Posture) (diagonal straight : Segment) : List Segment :=
  match posture with
  | .diagonalFirst => [diagonal, straight]
  | .straightFirst => [straight, diagonal]

section HeadCorner

variable {p c q : Point} {posture : Posture} {ortho : Bool}

/-- **The corner of a diagonal head**: a diagonal on the side of the posture, and nothing but a
horizontal or a vertical piece on the other. -/
theorem headCorner_diagonal (h : headCorner p q posture false = .ok c) :
    ∃ diagonal straight : Segment, diagonal.IsDiagonal ∧ straight.IsStraight ∧
      posture.inOrder diagonal straight = [⟨p, c⟩, ⟨c, q⟩] := by
  have h : diagonalCorner p q (posture == .diagonalFirst) = .ok c := h
  obtain ⟨across, up, hcut, hcorner⟩ := diagonalCorner_eq_ok h
  obtain ⟨heven, htaken⟩ := cutOff_spec (q.x.toInt - p.x.toInt) (q.y.toInt - p.y.toInt)
  rw [← hcut] at heven htaken
  cases posture with
  | diagonalFirst =>
      obtain ⟨hx, hy⟩ : c.x.toInt = p.x.toInt + across ∧ c.y.toInt = p.y.toInt + up := hcorner
      have hdiagonal : (c.x.toInt - p.x.toInt).natAbs = (c.y.toInt - p.y.toInt).natAbs := by omega
      have hstraight : c.x.toInt = q.x.toInt ∨ c.y.toInt = q.y.toInt := by omega
      exact ⟨⟨p, c⟩, ⟨c, q⟩, hdiagonal, Segment.isStraight_iff.mpr hstraight, rfl⟩
  | straightFirst =>
      obtain ⟨hx, hy⟩ : c.x.toInt = q.x.toInt - across ∧ c.y.toInt = q.y.toInt - up := hcorner
      have hdiagonal : (q.x.toInt - c.x.toInt).natAbs = (q.y.toInt - c.y.toInt).natAbs := by omega
      have hstraight : p.x.toInt = c.x.toInt ∨ p.y.toInt = c.y.toInt := by omega
      exact ⟨⟨c, q⟩, ⟨p, c⟩, hdiagonal, Segment.isStraight_iff.mpr hstraight, rfl⟩

/-- In ortho mode both pieces are straight. -/
theorem headCorner_square (h : headCorner p q posture true = .ok c) :
    ∀ s ∈ [Segment.mk p c, Segment.mk c q], s.IsStraight := by
  have h : squareCorner p q (posture == .diagonalFirst) = c := Checked.pure_eq_ok.mp h
  rw [List.forall_mem_cons, List.forall_mem_singleton, ← h]
  cases posture with
  | diagonalFirst => exact ⟨.inr rfl, .inl rfl⟩
  | straightFirst => exact ⟨.inl rfl, .inr rfl⟩

/-- Where there is no way to go the corner lies at the start. -/
theorem headCorner_self (h : headCorner p p posture ortho = .ok c) : c = p := by
  cases ortho with
  | true =>
      have h : squareCorner p p (posture == .diagonalFirst) = c := Checked.pure_eq_ok.mp h
      rw [← h, squareCorner, ite_self]
  | false =>
      have h : diagonalCorner p p (posture == .diagonalFirst) = .ok c := h
      obtain ⟨across, up, hcut, hcorner⟩ := diagonalCorner_eq_ok h
      obtain ⟨rfl, rfl⟩ : across = 0 ∧ up = 0 := by
        rw [Int.sub_self, Int.sub_self] at hcut
        exact Prod.mk.inj hcut
      rw [Int.add_zero, Int.add_zero, Int.sub_zero, Int.sub_zero, ite_self] at hcorner
      exact Point.ext_toInt hcorner.1 hcorner.2

end HeadCorner

/-- The corner stays one point, unless rounding makes two of it. -/
theorem bend_eq_ok {p c q : Point} {width : UInt32} {rounded : Bool} {middle : List Point}
    (h : bend p c q width rounded = .ok middle) :
    middle = [c] ∨ rounded = true ∧ c ≠ p ∧ middle.length = 2 := by
  unfold bend at h
  split at h
  · next hbent =>
      obtain ⟨a, _, h⟩ := Checked.bind_eq_ok.mp h
      obtain ⟨a', _, h⟩ := Checked.bind_eq_ok.mp h
      cases h
      obtain ⟨⟨hrounded, hcorner⟩, _⟩ : (rounded = true ∧ c ≠ p) ∧ c ≠ q := by simpa using hbent
      exact .inr ⟨hrounded, hcorner, rfl⟩
  · exact .inl (Checked.pure_eq_ok.mp h).symm

section Pieces

variable {r : RouteRequest} {stop : Point} {points : List Point}

/-- No segment of a head is a single point. -/
theorem start_ne_stop_of_headPoints (h : headPoints r stop = .ok points) :
    ∀ s ∈ Segment.along points, s.start ≠ s.stop := by
  obtain ⟨corner, middle, _, _, rfl⟩ := headPoints_eq_ok h
  intro s hs
  rw [Segment.along_dropRepeats] at hs
  exact of_decide_eq_true (List.mem_filter.mp hs).2

/-- Two pieces at the corner, and one more where it is cut off. -/
theorem length_along_headPoints (h : headPoints r stop = .ok points) :
    (Segment.along points).length ≤ if r.rounded then 3 else 2 := by
  obtain ⟨corner, middle, _, hmiddle, rfl⟩ := headPoints_eq_ok h
  rw [Segment.along_dropRepeats]
  have hall : (Segment.along (r.start :: middle ++ [stop])).length = middle.length + 1 := by
    simp [Segment.length_along]
  refine (List.length_filter_le _ _).trans (hall.trans_le ?_)
  rcases bend_eq_ok hmiddle with rfl | ⟨hrounded, _, htwo⟩
  · rw [List.length_singleton]
    split <;> omega
  · rw [hrounded, htwo, if_pos rfl]

/-- A head to where it starts has no pieces, and every other has some. -/
theorem along_headPoints_eq_nil (h : headPoints r stop = .ok points) :
    Segment.along points = [] ↔ r.start = stop := by
  obtain ⟨hfirst, hlast⟩ := headPoints_ends h
  constructor
  · intro hnil
    have hway := Segment.path_along hfirst hlast
    rw [hnil] at hway
    cases hway
    rfl
  · rintro rfl
    obtain ⟨corner, middle, hcorner, hmiddle, rfl⟩ := headPoints_eq_ok h
    obtain rfl := headCorner_self hcorner
    rcases bend_eq_ok hmiddle with rfl | ⟨_, hcorner, _⟩
    · rw [Segment.along_dropRepeats]
      simp [Segment.along]
    · exact absurd rfl hcorner

/-- Without rounding a head has the two pieces at its corner, less those without length. -/
theorem along_headPoints_of_unrounded (h : headPoints r stop = .ok points)
    (hsharp : r.rounded = false) :
    ∃ corner, headCorner r.start stop r.posture r.ortho = .ok corner ∧
      (Segment.along points).Sublist [⟨r.start, corner⟩, ⟨corner, stop⟩] := by
  obtain ⟨corner, middle, hcorner, hmiddle, rfl⟩ := headPoints_eq_ok h
  refine ⟨corner, hcorner, ?_⟩
  rcases bend_eq_ok hmiddle with rfl | ⟨hrounded, _⟩
  · rw [Segment.along_dropRepeats]
    exact List.filter_sublist
  · exact absurd hrounded (by simp [hsharp])

end Pieces

/-- **Copper that a head ends on**: what the pointer is on, when it has the net of the head and
reaches its layer. -/
def RouteRequest.EndsOn (r : RouteRequest) (b : Board) (i : Item) : Prop :=
  ∃ id, r.stopItem = some id ∧ b.item? id = some i ∧ i.net = r.net ∧
    i.layers.contains r.layer = true

/-- The target of a request is the item that its head is to end on. -/
theorem Board.routeTarget_eq_some {b : Board} {r : RouteRequest} {i : Item} :
    b.routeTarget r = some i ↔ r.EndsOn b i := by
  simp [routeTarget, RouteRequest.EndsOn, Option.filter_eq_some_iff, Option.bind_eq_some_iff,
    ← and_assoc]

/-- The point that copper offers is one where other copper can connect. -/
theorem Item.snapPoint_mem_anchors (i : Item) (p : Point) : i.snapPoint p ∈ i.anchors := by
  unfold snapPoint anchors
  cases i.shape with
  | segment axis width =>
      dsimp only [Shape.anchors]
      split
      · exact List.mem_cons_self ..
      · exact List.mem_cons_of_mem _ (List.mem_cons_self ..)
  | via position diameter drill type => exact List.mem_singleton_self _
  | solid position size => exact List.mem_singleton_self _

/-- **The shape of a head** that answers a request on a board, with tracks that run along `axes`. -/
structure RouteGeometry.Shaped (g : RouteGeometry) (b : Board) (r : RouteRequest)
    (axes : List Segment) : Prop where
  /-- All tracks as they were asked for, and behind them the via, if there is one. -/
  items : g.items = (axes.map fun s => Draft.track s r.trackWidth r.layer r.net) ++
    (r.via.map fun v => Draft.via g.stop v.diameter v.drill v.viaType v.span r.net).toList
  path : Segment.Path r.start axes g.stop
  start_ne_stop : ∀ s ∈ axes, s.start ≠ s.stop
  eq_nil_iff : axes = [] ↔ r.start = g.stop
  length_le : axes.length ≤ if r.rounded then 3 else 2
  square : r.rounded = false → r.ortho = true → ∀ s ∈ axes, s.IsStraight
  /-- One of the two may be missing. -/
  diagonal : r.rounded = false → r.ortho = false → ∃ diagonal straight : Segment,
    diagonal.IsDiagonal ∧ straight.IsStraight ∧ axes.Sublist (r.posture.inOrder diagonal straight)
  reachedTarget_iff : g.reachedTarget = true ↔ ∃ i, r.EndsOn b i
  stop_mem_anchors : ∀ i, r.EndsOn b i → g.stop ∈ i.anchors
  stop_eq : g.reachedTarget = false → g.stop = r.stop

/-- What the engine draws has a shape. -/
theorem Board.routeGeometry_shaped {b : Board} {r : RouteRequest} {g : RouteGeometry}
    (h : b.routeGeometry r = .ok g) : ∃ axes, g.Shaped b r axes := by
  obtain ⟨⟨points, hpoints, hitems⟩, hstop, _, hreached⟩ := routeGeometry_eq_ok h
  obtain ⟨hfirst, hlast⟩ := headPoints_ends hpoints
  refine ⟨Segment.along points, ?_, Segment.path_along hfirst hlast,
    start_ne_stop_of_headPoints hpoints, along_headPoints_eq_nil hpoints,
    length_along_headPoints hpoints, ?square, ?diagonal, ?reached, ?anchor, ?missed⟩
  · rw [hitems, tracksAlong_eq]
    rfl
  case square =>
    intro hsharp hortho s hs
    obtain ⟨corner, hcorner, hpieces⟩ := along_headPoints_of_unrounded hpoints hsharp
    rw [hortho] at hcorner
    exact headCorner_square hcorner s (hpieces.subset hs)
  case diagonal =>
    intro hsharp hortho
    obtain ⟨corner, hcorner, hpieces⟩ := along_headPoints_of_unrounded hpoints hsharp
    rw [hortho] at hcorner
    obtain ⟨diagonal, straight, hdiagonal, hstraight, horder⟩ := headCorner_diagonal hcorner
    exact ⟨diagonal, straight, hdiagonal, hstraight, horder ▸ hpieces⟩
  case reached =>
    rw [hreached, Option.isSome_iff_exists]
    exact exists_congr fun i => routeTarget_eq_some
  case anchor =>
    intro i hi
    rw [routeTarget_eq_some.mpr hi] at hstop
    exact hstop ▸ i.snapPoint_mem_anchors r.stop
  case missed =>
    intro hmissed
    rw [hreached, Option.isSome_eq_false_iff, Option.isNone_iff_eq_none] at hmissed
    rw [hstop, hmissed]
    rfl

/-- **Whatever the engine answers to a request** has the shape of a head on the engine's board. -/
theorem World.route_shaped {w : World} {r : RouteRequest} {g : RouteGeometry}
    (h : w.route r = .ok (.ok g)) : ∃ b axes, w = some b ∧ g.Shaped b r axes := by
  obtain ⟨b, hworld, hgeometry⟩ := route_eq_ok h
  obtain ⟨axes, hshaped⟩ := Board.routeGeometry_shaped hgeometry
  exact ⟨b, axes, hworld, hshaped⟩

/-- A pad, and a track of another net beyond it. -/
def padBeforeTrack : Board :=
  { Board.standard with
    items := [⟨1, .solid ⟨3000000, 1000000⟩ 100000, 1, LayerRange.single ⟨0⟩, false, none⟩,
      ⟨2, .segment ⟨⟨3000000, 3000000⟩, ⟨6000000, 3000000⟩⟩ 200000, 2, LayerRange.single ⟨0⟩, false,
        none⟩]
    nextId := 3 }

/-- From the origin to a place close to the pad, with a via there. -/
def towardsPad : RouteRequest :=
  { start := Point.zero, startItem := none, layer := ⟨0⟩, stop := ⟨2950000, 1040000⟩
    stopItem := some 1, net := 1, trackWidth := 250000
    via := some ⟨.through, ⟨⟨0⟩, ⟨1⟩⟩, 800000, 400000⟩
    mode := .walkaround, posture := .diagonalFirst, ortho := false, rounded := false }

/-- A head that ends on a pad, with both pieces and a via. -/
theorem World.route_shaped_pad : ∃ g axes,
    World.route (some padBeforeTrack) towardsPad = .ok (.ok g) ∧
    g.Shaped padBeforeTrack towardsPad axes ∧ g.reachedTarget = true ∧
    g.items.map (fun d => d.shape.anchors) = [[⟨0, 0⟩, ⟨1000000, 1000000⟩],
      [⟨1000000, 1000000⟩, ⟨3000000, 1000000⟩], [⟨3000000, 1000000⟩]] := by
  have hshown : (World.route (some padBeforeTrack) towardsPad).toOption.map
      (fun answer => answer.toOption.map fun g =>
        (g.reachedTarget, g.items.map fun d => d.shape.anchors)) =
      some (some (true, [[⟨0, 0⟩, ⟨1000000, 1000000⟩],
        [⟨1000000, 1000000⟩, ⟨3000000, 1000000⟩], [⟨3000000, 1000000⟩]])) := by
    decide +kernel
  obtain ⟨answer, hanswer, hshown⟩ := exists_of_toOption_map hshown
  obtain ⟨g, rfl, hseen⟩ := exists_of_toOption_map hshown
  obtain ⟨b, axes, hworld, hshaped⟩ := route_shaped hanswer
  obtain rfl := Option.some.inj hworld
  obtain ⟨hreached, hanchors⟩ := Prod.mk.inj hseen
  exact ⟨g, axes, hanswer, hshaped, hreached, hanchors⟩

end CopperRoute
