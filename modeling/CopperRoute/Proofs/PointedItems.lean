import CopperRoute.Proofs.BoardChanges
import CopperRoute.Proofs.Orientations

/-!
# The item under the pointer

Every click, every motion of the pointer and every broken track begins with a search for the item
under a point.  In reach are the items on the layer, or on any when no layer is asked for, whose
gap to the point is at most the tolerance (`Item.InReach`).  Of these the search takes the first of
the best (`Board.Picks`): a via or a pad if there is one, then the smallest gap in the total order
of doubles, then the first in board order.

A search has an answer exactly when every item on the layer can be measured (`Board.Measures`).
Vias and pads always can (`Item.turnFits_of_not_track`).  A track cannot when the turn from its ends
to the point does not fit, and then the search stops, whatever else is in reach
(`Board.itemAt_answers_iff`).
-/

namespace CopperRoute

/-- On the layer, or anywhere when no layer is asked for. -/
def Item.OnLayer (i : Item) (layer : Option LayerId) : Prop :=
  ∀ l ∈ layer, i.layers.contains l = true

/-- **In reach of a point**, with this gap. -/
structure Item.InReach (i : Item) (p : Point) (layer : Option LayerId) (tolerance gap : Float) :
    Prop where
  onLayer : i.OnLayer layer
  measured : i.outline.gap (Capsule.circle p 0.0) = .ok gap
  near : gap ≤ tolerance

/-- **Every item on the layer can be measured**: the turns from the ends of its axis to the point
fit. -/
def Board.Measures (b : Board) (p : Point) (layer : Option LayerId) : Prop :=
  ∀ i ∈ b.items, i.OnLayer layer → TurnFits i.outline.axis.start i.outline.axis.stop p

/-- **The first of the best**: the item between those before and those after it is in reach with
this gap, and none of the others comes before it in the choice. -/
structure Board.Picks (b : Board) (p : Point) (layer : Option LayerId) (tolerance : Float)
    (before : List Item) (i : Item) (after : List Item) (gap : Float) : Prop where
  order : b.items = before ++ i :: after
  inReach : i.InReach p layer tolerance gap
  /-- It is a via or a pad if any item in reach is one. -/
  untracked : ∀ j ∈ b.items, ∀ gap', j.InReach p layer tolerance gap' → j.isSegment = false →
    i.isSegment = false
  /-- No item of the same class has a smaller gap. -/
  nearest : ∀ j ∈ b.items, ∀ gap', j.InReach p layer tolerance gap' →
    j.isSegment = i.isSegment → totalOrderKey gap ≤ totalOrderKey gap'
  /-- Those of the same class that come before it have a larger gap. -/
  first : ∀ j ∈ before, ∀ gap', j.InReach p layer tolerance gap' →
    j.isSegment = i.isSegment → totalOrderKey gap < totalOrderKey gap'

/-- **The item pointed at.** -/
def Board.PointedAt (b : Board) (p : Point) (layer : Option LayerId) (tolerance : Float)
    (i : Item) : Prop :=
  ∃ before after gap, b.Picks p layer tolerance before i after gap

/-- The turns of a single point fit. -/
theorem turnFits_self (a c : Point) : TurnFits a a c := by
  constructor <;> simp [sweep, FitsInt64]

/-- The outline of a via or a pad is a circle, which has an axis of one point. -/
theorem Item.turnFits_of_not_track {i : Item} (h : i.isSegment = false) (p : Point) :
    TurnFits i.outline.axis.start i.outline.axis.stop p := by
  obtain ⟨_, shape, _, _, _, _⟩ := i
  cases shape with
  | segment => cases h
  | via => exact turnFits_self _ p
  | solid => exact turnFits_self _ p

/-- The gap to a point is measured when the turn from the ends of the axis to the point fits. -/
theorem Capsule.exists_gap_iff {x : Capsule} {p : Point} :
    (∃ gap, x.gap (Capsule.circle p 0.0) = .ok gap) ↔ TurnFits x.axis.start x.axis.stop p := by
  have hmeets : (∃ gap, x.gap (Capsule.circle p 0.0) = .ok gap) ↔
      ∃ r, x.axis.intersects ⟨p, p⟩ = .ok r := by
    simp only [Capsule.gap, Capsule.circle, Segment.separation]
    cases x.axis.intersects ⟨p, p⟩ with
    | error fault => simp [bind, Except.bind]
    | ok r => cases r <;> simp [bind, Except.bind, pure, Except.pure]
  rw [hmeets, Segment.exists_intersects_iff]
  exact ⟨Segment.TurnsFit.toStart, fun h => ⟨h, h, turnFits_self p _, turnFits_self p _⟩⟩

/-- A list can be measured when every element can. -/
theorem exists_mapM_iff {α β : Type} {f : α → Checked β} {xs : List α} :
    (∃ ys, xs.mapM f = .ok ys) ↔ ∀ x ∈ xs, ∃ y, f x = .ok y := by
  constructor
  · rintro ⟨ys, hys⟩ x hx
    obtain ⟨y, _, hy⟩ := exists_mem_of_mapM hys hx
    exact ⟨y, hy⟩
  · intro hall
    induction xs with
    | nil => exact ⟨[], rfl⟩
    | cons x xs ih =>
        obtain ⟨y, hy⟩ := hall x List.mem_cons_self
        obtain ⟨ys, hys⟩ := ih fun z hz => hall z (List.mem_cons_of_mem x hz)
        exact ⟨y :: ys, by rw [List.mapM_cons, hy, hys]; rfl⟩

namespace Board

variable {b : Board} {p : Point} {layer : Option LayerId} {tolerance : Float}

/-- An item with its gap, if that is at most the tolerance. -/
def measure? (p : Point) (tolerance : Float) (i : Item) : Option Candidate :=
  match i.outline.gap (Capsule.circle p 0.0) with
  | .ok gap => if gap ≤ tolerance then some ⟨i, gap⟩ else none
  | .error _ => none

/-- An item as a candidate, if it is in reach. -/
def candidate? (p : Point) (layer : Option LayerId) (tolerance : Float) (i : Item) :
    Option Candidate :=
  if layer.all i.layers.contains then measure? p tolerance i else none

/-- Layers are asked for as the search asks for them. -/
theorem onLayer_iff {i : Item} : i.OnLayer layer ↔ layer.all i.layers.contains = true := by
  cases layer <;> simp [Item.OnLayer]

/-- A measured item counts when its gap is at most the tolerance. -/
theorem measure?_of_gap {i : Item} {gap : Float}
    (h : i.outline.gap (Capsule.circle p 0.0) = .ok gap) :
    measure? p tolerance i = if gap ≤ tolerance then some ⟨i, gap⟩ else none := by
  rw [measure?, h]

/-- **The candidates** are the items in reach. -/
theorem candidate?_eq_some {i : Item} {c : Candidate} :
    candidate? p layer tolerance i = some c ↔
      c.item = i ∧ i.InReach p layer tolerance c.gap := by
  rw [candidate?, Option.ite_none_right_eq_some, ← onLayer_iff]
  constructor
  · rintro ⟨hlayer, h⟩
    unfold measure? at h
    split at h
    · next gap hgap =>
        obtain ⟨hnear, h⟩ := Option.ite_none_right_eq_some.mp h
        cases h
        exact ⟨rfl, hlayer, hgap, hnear⟩
    · cases h
  · rintro ⟨rfl, hreach⟩
    rw [measure?_of_gap hreach.measured, if_pos hreach.near]
    exact ⟨hreach.onLayer, rfl⟩

/-- The candidates are the items in reach, in the order of the board. -/
theorem filterMap_candidate? {measured : List Candidate}
    (h : (b.items.filter fun i => layer.all i.layers.contains).mapM
      (fun i => return (⟨i, ← i.outline.gap (Capsule.circle p 0.0)⟩ : Candidate)) = .ok measured) :
    b.items.filterMap (candidate? p layer tolerance) =
      measured.filter fun c => c.gap ≤ tolerance := by
  have hmeasured : measured.map (Option.guard fun c => decide (c.gap ≤ tolerance)) =
      (b.items.filter fun i => layer.all i.layers.contains).map (measure? p tolerance) := by
    refine map_eq_of_mapM (fun i c hc => ?_) h
    obtain ⟨gap, hgap, hc⟩ := Checked.bind_eq_ok.mp hc
    cases hc
    simp [Option.guard, measure?_of_gap hgap]
  have hsame := congrArg (List.filterMap id) hmeasured
  rw [List.filterMap_map, List.filterMap_map, List.filterMap_filter,
    Function.id_comp, Function.id_comp, List.filterMap_eq_filter] at hsame
  exact hsame.symm

/-- They are found when every item on the layer can be measured. -/
theorem candidates_eq_ok {cs : List Candidate} :
    b.candidates p layer tolerance = .ok cs ↔
      b.Measures p layer ∧ b.items.filterMap (candidate? p layer tolerance) = cs := by
  have hmeasures : b.Measures p layer ↔ ∃ measured,
      (b.items.filter fun i => layer.all i.layers.contains).mapM
        (fun i => return (⟨i, ← i.outline.gap (Capsule.circle p 0.0)⟩ : Candidate)) =
          Except.ok measured := by
    simp only [Measures, exists_mapM_iff, List.mem_filter, ← onLayer_iff, ← Capsule.exists_gap_iff,
      Checked.bind_eq_ok, Checked.pure_eq_ok]
    constructor
    · rintro h i ⟨hi, hlayer⟩
      obtain ⟨gap, hgap⟩ := h i hi hlayer
      exact ⟨_, gap, hgap, rfl⟩
    · intro h i hi hlayer
      obtain ⟨_, gap, hgap, _⟩ := h i ⟨hi, hlayer⟩
      exact ⟨gap, hgap⟩
  rw [hmeasures, candidates, Checked.bind_eq_ok]
  constructor
  · rintro ⟨measured, hmeasured, h⟩
    exact ⟨⟨measured, hmeasured⟩, (filterMap_candidate? hmeasured).trans (Checked.pure_eq_ok.mp h)⟩
  · rintro ⟨⟨measured, hmeasured⟩, rfl⟩
    exact ⟨measured, hmeasured, Checked.pure_eq_ok.mpr (filterMap_candidate? hmeasured).symm⟩

namespace Candidate

variable {c d e : Candidate} {cs before after : List Candidate}

/-- A via or a pad comes before every track, and otherwise the gap decides. -/
theorem precedes_iff :
    c.precedes d = true ↔ (d.item.isSegment = false → c.item.isSegment = false) ∧
      (d.item.isSegment = c.item.isSegment → totalOrderKey c.gap < totalOrderKey d.gap) := by
  unfold precedes
  cases c.item.isSegment <;> cases d.item.isSegment <;> simp

/-- What does not come before a candidate is of no better class, and no nearer in the same one. -/
theorem not_precedes_iff :
    ¬ d.precedes c = true ↔ (d.item.isSegment = false → c.item.isSegment = false) ∧
      (d.item.isSegment = c.item.isSegment → totalOrderKey c.gap ≤ totalOrderKey d.gap) := by
  unfold precedes
  cases c.item.isSegment <;> cases d.item.isSegment <;> simp

/-- Of two candidates one comes first at most. -/
theorem not_precedes_of_precedes (h : c.precedes d = true) : ¬ d.precedes c = true := by
  obtain ⟨hclass, hgap⟩ := precedes_iff.mp h
  exact not_precedes_iff.mpr ⟨hclass, fun hsame => (hgap hsame).le⟩

/-- What comes before a candidate comes before every other one that does not. -/
theorem precedes_of_not_precedes (hd : d.precedes c = true) (he : ¬ e.precedes c = true) :
    d.precedes e = true := by
  obtain ⟨hfree, hless⟩ := precedes_iff.mp hd
  obtain ⟨hfree', hle⟩ := not_precedes_iff.mp he
  refine precedes_iff.mpr ⟨fun h => hfree (hfree' h), fun hsame => ?_⟩
  -- the class of `c` lies between the other two
  have hclass : c.item.isSegment = d.item.isSegment := by
    cases htrack : c.item.isSegment <;> cases htrack' : d.item.isSegment <;> simp_all
  exact (hless hclass).trans_le (hle (hsame.trans hclass.symm))

/-- The better one of the best so far and the next candidate. -/
def better (best : Option Candidate) (c : Candidate) : Option Candidate :=
  match best with
  | none => some c
  | some b => if c.precedes b then some c else some b

/-- The best of a longer list is found by going on. -/
theorem best_append (cs ds : List Candidate) : best (cs ++ ds) = ds.foldl better (best cs) :=
  List.foldl_append

/-- Nothing that does not come before the best so far replaces it. -/
theorem foldl_better_of_not_precedes (h : ∀ d ∈ after, ¬ d.precedes c = true) :
    after.foldl better (some c) = some c := by
  induction after with
  | nil => rfl
  | cons d after ih =>
      have hd : better (some c) d = some c := if_neg (h d List.mem_cons_self)
      rw [List.foldl_cons, hd]
      exact ih fun e he => h e (List.mem_cons_of_mem d he)

/-- **The first of the best**: it comes before all that stand before it, and nothing that stands
behind it comes before it. -/
def IsFirst (c : Candidate) (before after : List Candidate) : Prop :=
  (∀ d ∈ before, c.precedes d = true) ∧ ∀ d ∈ after, ¬ d.precedes c = true

/-- Every list that is not empty has a first of the best, and that is the best. -/
theorem best_cases (cs : List Candidate) :
    cs = [] ∧ best cs = none ∨
      ∃ before c after, cs = before ++ c :: after ∧ best cs = some c ∧ c.IsFirst before after := by
  induction cs using List.reverseRecOn with
  | nil => exact .inl ⟨rfl, rfl⟩
  | append_singleton cs d ih =>
      have hbest : best (cs ++ [d]) = better (best cs) d := best_append cs [d]
      right
      rcases ih with ⟨rfl, hnone⟩ | ⟨before, c, after, rfl, hc, hbefore, hafter⟩
      · exact ⟨[], d, [], rfl, rfl, by simp [IsFirst]⟩
      · rw [hc] at hbest
        by_cases hd : d.precedes c = true
        · -- nothing came before the one that is replaced, so all of them come after the new one
          refine ⟨before ++ c :: after, d, [], rfl, hbest.trans (if_pos hd), ?_, by simp⟩
          intro e he
          rcases List.mem_append.mp he with he | he
          · exact precedes_of_not_precedes hd (not_precedes_of_precedes (hbefore e he))
          rcases List.mem_cons.mp he with rfl | he
          · exact hd
          · exact precedes_of_not_precedes hd (hafter e he)
        · refine ⟨before, c, after ++ [d], by simp, hbest.trans (if_neg hd), hbefore, ?_⟩
          intro e he
          rcases List.mem_append.mp he with he | he
          · exact hafter e he
          · rwa [List.mem_singleton.mp he]

/-- Only an empty list has no best. -/
theorem best_eq_none_iff : best cs = none ↔ cs = [] := by
  rcases best_cases cs with ⟨rfl, hnone⟩ | ⟨before, c, after, rfl, hc, _⟩
  · exact iff_of_true hnone rfl
  · simp [hc]

/-- **The best candidate** is the first of the best. -/
theorem best_eq_some_iff :
    best cs = some c ↔ ∃ before after, cs = before ++ c :: after ∧ c.IsFirst before after := by
  constructor
  · intro h
    rcases best_cases cs with ⟨_, hnone⟩ | ⟨before, c', after, hcs, hc', hfirst⟩
    · cases hnone.symm.trans h
    · cases hc'.symm.trans h
      exact ⟨before, after, hcs, hfirst⟩
  · rintro ⟨before, after, rfl, hbefore, hafter⟩
    -- it replaces the best of those before it, if there are any
    have hreached : better (best before) c = some c := by
      rcases best_cases before with ⟨_, hnone⟩ | ⟨nearer, d, farther, rfl, hd, _⟩
      · rw [hnone]
        rfl
      · rw [hd]
        exact if_pos (hbefore d (by simp))
    rw [best_append, List.foldl_cons, hreached]
    exact foldl_better_of_not_precedes hafter

end Candidate

/-- The search answers with the best candidate once all is measured. -/
theorem itemAt_eq_ok {answer : Option Item} :
    b.itemAt p layer tolerance = .ok answer ↔ b.Measures p layer ∧
      (Candidate.best (b.items.filterMap (candidate? p layer tolerance))).map Candidate.item =
        answer := by
  simp only [itemAt, Checked.bind_eq_ok, Checked.pure_eq_ok, candidates_eq_ok]
  constructor
  · rintro ⟨cs, ⟨hmeasures, rfl⟩, hanswer⟩
    exact ⟨hmeasures, hanswer⟩
  · rintro ⟨hmeasures, hanswer⟩
    exact ⟨_, ⟨hmeasures, rfl⟩, hanswer⟩

/-- What holds of all candidates holds of all items in reach. -/
theorem forall_candidates_iff {items : List Item} {P : Candidate → Prop} :
    (∀ c ∈ items.filterMap (candidate? p layer tolerance), P c) ↔
      ∀ i ∈ items, ∀ gap, i.InReach p layer tolerance gap → P ⟨i, gap⟩ := by
  simp only [List.mem_filterMap, candidate?_eq_some]
  constructor
  · intro h i hi gap hreach
    exact h ⟨i, gap⟩ ⟨i, hi, rfl, hreach⟩
  · rintro h c ⟨i, hi, rfl, hreach⟩
    exact h c.item hi c.gap hreach

/-- What is picked is the first of the best candidates. -/
theorem picks_iff {before after : List Item} {i : Item} {gap : Float} :
    b.Picks p layer tolerance before i after gap ↔
      b.items = before ++ i :: after ∧ i.InReach p layer tolerance gap ∧
        Candidate.IsFirst ⟨i, gap⟩ (before.filterMap (candidate? p layer tolerance))
          (after.filterMap (candidate? p layer tolerance)) := by
  simp only [Candidate.IsFirst, forall_candidates_iff]
  constructor
  · intro h
    refine ⟨h.order, h.inReach, fun j hj gap' hreach => ?_, fun j hj gap' hreach => ?_⟩
    · have hthere : j ∈ b.items := by simp [h.order, hj]
      exact Candidate.precedes_iff.mpr
        ⟨h.untracked j hthere gap' hreach, h.first j hj gap' hreach⟩
    · have hthere : j ∈ b.items := by simp [h.order, hj]
      exact Candidate.not_precedes_iff.mpr
        ⟨h.untracked j hthere gap' hreach, h.nearest j hthere gap' hreach⟩
  · rintro ⟨horder, hreach, hbefore, hafter⟩
    have hnone : ∀ j ∈ b.items, ∀ gap', j.InReach p layer tolerance gap' →
        ¬ Candidate.precedes ⟨j, gap'⟩ ⟨i, gap⟩ = true := by
      intro j hj gap' hreach'
      rw [horder, List.mem_append, List.mem_cons] at hj
      rcases hj with hj | rfl | hj
      · exact Candidate.not_precedes_of_precedes (hbefore j hj gap' hreach')
      · -- it is measured once
        cases Except.ok.inj (hreach.measured.symm.trans hreach'.measured)
        exact fun hself => Candidate.not_precedes_of_precedes hself hself
      · exact hafter j hj gap' hreach'
    refine ⟨horder, hreach, fun j hj gap' hreach' => ?_, fun j hj gap' hreach' => ?_,
      fun j hj gap' hreach' => ?_⟩
    · exact (Candidate.not_precedes_iff.mp (hnone j hj gap' hreach')).1
    · exact (Candidate.not_precedes_iff.mp (hnone j hj gap' hreach')).2
    · exact (Candidate.precedes_iff.mp (hbefore j hj gap' hreach')).2

/-- The item pointed at is the best candidate. -/
theorem pointedAt_iff {i : Item} :
    b.PointedAt p layer tolerance i ↔
      (Candidate.best (b.items.filterMap (candidate? p layer tolerance))).map Candidate.item =
        some i := by
  simp only [PointedAt, picks_iff, Option.map_eq_some_iff, Candidate.best_eq_some_iff]
  constructor
  · rintro ⟨before, after, gap, horder, hreach, hfirst⟩
    have hcandidate : candidate? p layer tolerance i = some ⟨i, gap⟩ :=
      candidate?_eq_some.mpr ⟨rfl, hreach⟩
    refine ⟨⟨i, gap⟩, ⟨_, _, ?_, hfirst⟩, rfl⟩
    rw [horder, List.filterMap_append, List.filterMap_cons_some hcandidate]
  · rintro ⟨c, ⟨nearer, farther, hsplit, hfirst⟩, rfl⟩
    obtain ⟨front, back, hitems, rfl, hback⟩ := List.filterMap_eq_append_iff.mp hsplit
    obtain ⟨skipped, i, after, rfl, hskipped, hi, rfl⟩ := List.filterMap_eq_cons_iff.mp hback
    obtain ⟨rfl, hreach⟩ := candidate?_eq_some.mp hi
    refine ⟨front ++ skipped, after, c.gap, by simpa using hitems, hreach, ?_⟩
    -- what lies between the candidates is out of reach
    rwa [List.filterMap_append, List.filterMap_eq_nil_iff.mpr hskipped, List.append_nil]

/-- Everything can be measured when each track lies with the point in a rectangle of less than
`2 ^ 63`. -/
theorem measures_of_within {width height : UInt32} (harea : width.toNat * height.toNat < 2 ^ 63)
    (hwithin : ∀ i ∈ b.items, i.isSegment = true → i.OnLayer layer →
      i.outline.axis.LieWithin ⟨p, p⟩ width height) : b.Measures p layer := by
  intro i hi hlayer
  by_cases htrack : i.isSegment = true
  · exact ((hwithin i hi htrack hlayer).turnsFit harea).toStart
  · exact Item.turnFits_of_not_track (Bool.eq_false_iff.mpr htrack) p

/-- **What the search for an item answers.**  It has an answer exactly when every item on the layer
can be measured.  Then there is no item under the point exactly when none is in reach, and otherwise
it is the one that is pointed at. -/
theorem itemAt_answers_iff (b : Board) (p : Point) (layer : Option LayerId) (tolerance : Float) :
    ((∃ answer, b.itemAt p layer tolerance = .ok answer) ↔ b.Measures p layer) ∧
      (b.itemAt p layer tolerance = .ok none ↔
        b.Measures p layer ∧ ¬ ∃ i ∈ b.items, ∃ gap, i.InReach p layer tolerance gap) ∧
      ∀ i, b.itemAt p layer tolerance = .ok (some i) ↔
        b.Measures p layer ∧ b.PointedAt p layer tolerance i := by
  have hnone : b.items.filterMap (candidate? p layer tolerance) = [] ↔
      ¬ ∃ i ∈ b.items, ∃ gap, i.InReach p layer tolerance gap := by
    rw [List.eq_nil_iff_forall_not_mem, forall_candidates_iff (P := fun _ => False)]
    simp only [not_exists, not_and]
  refine ⟨?_, ?_, fun i => ?_⟩
  · simp only [itemAt_eq_ok, exists_and_left, exists_eq', and_true]
  · rw [itemAt_eq_ok, Option.map_eq_none_iff, Candidate.best_eq_none_iff, hnone]
  · rw [itemAt_eq_ok, pointedAt_iff]

/-- A pad of half a millimetre at the end of `trackWithPad`. -/
def endPad : Item := ⟨2, .solid ⟨1000000, 0⟩ 500000, 1, LayerRange.single .top, false, none⟩

/-- A track of one millimetre, and a pad at its end. -/
def trackWithPad : Board :=
  { standard with
    items := [(Draft.track ⟨⟨0, 0⟩, ⟨1000000, 0⟩⟩ 250000 .top 1).withId 1, endPad]
    nextId := 3 }

/-- Where the two overlap the pad is pointed at, although the track came first. -/
theorem itemAt_answers_iff_overlap :
    (∃ answer, trackWithPad.itemAt ⟨900000, 0⟩ (some .top) 0.0 = .ok answer) ∧
      trackWithPad.PointedAt ⟨900000, 0⟩ (some .top) 0.0 endPad := by
  obtain ⟨hanswers, _, hpicks⟩ := itemAt_answers_iff trackWithPad ⟨900000, 0⟩ (some .top) 0.0
  have harea : (1000000 : UInt32).toNat * (1 : UInt32).toNat < 2 ^ 63 := by decide
  have hmeasures : trackWithPad.Measures ⟨900000, 0⟩ (some .top) := by
    refine measures_of_within harea fun i hi htrack _ => ?_
    rcases List.mem_cons.mp hi with rfl | hi
    · unfold Segment.LieWithin
      decide
    · rw [List.mem_singleton.mp hi] at htrack
      cases htrack
  refine ⟨hanswers.mpr hmeasures, ((hpicks endPad).mp ?_).2⟩
  decide +kernel

/-- A pad of half a millimetre. -/
def farPad : Item := ⟨2, .solid ⟨0, 2000000000⟩ 500000, 2, LayerRange.single .top, false, none⟩

/-- A track of four metres, and a pad four metres away from it. -/
def longTrackWithPad : Board :=
  { standard with
    items := [
      (Draft.track ⟨⟨-2000000000, -2000000000⟩, ⟨2000000000, -2000000000⟩⟩ 250000 .top 1).withId 1,
      farPad]
    nextId := 3 }

/-- The pad is in reach from its own middle, but the search does not get past the track. -/
theorem not_itemAt_answers :
    ¬ ∀ (b : Board) (p : Point) (layer : Option LayerId) (tolerance : Float),
      (∃ i ∈ b.items, ∃ gap, i.InReach p layer tolerance gap) →
        ∃ i, b.itemAt p layer tolerance = .ok (some i) := by
  intro hall
  have hmeasured : (farPad.outline.gap (Capsule.circle ⟨0, 2000000000⟩ 0.0)).toOption.map
      (fun gap => decide (gap ≤ 0.0)) = some true := by
    decide +kernel
  obtain ⟨gap, hgap, hnear⟩ := exists_of_toOption_map hmeasured
  have hthere : farPad ∈ longTrackWithPad.items := by simp [longTrackWithPad]
  obtain ⟨i, hanswer⟩ := hall longTrackWithPad ⟨0, 2000000000⟩ none 0.0
    ⟨farPad, hthere, gap, nofun, hgap, of_decide_eq_true hnear⟩
  cases hanswer

end Board

end CopperRoute
