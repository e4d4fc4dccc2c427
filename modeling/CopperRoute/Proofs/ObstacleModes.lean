import CopperRoute.Proofs.DragClearance
import CopperRoute.Proofs.HeadShapes
import CopperRoute.Proofs.Repetitions

/-!
# What the router mode decides

Whatever the mode, the engine first works out the geometry of its answer, and lists the items that
are in its way.  What it lists can be said without its search: every item once that is in
**conflict** with some piece of the copper and is not exempt (`Board.Obstacles`).  The list begins
with the first such item of the board for the first piece that has any.

Only then the mode comes in (`Settled`).  Marking obstacles takes every geometry.  The other two
modes do not differ from each other: they take the same geometry when nothing is in its way, and
otherwise name the first item of the list.

`World.modes_settle` says so of heads and of drags.
-/

namespace CopperRoute

namespace Board

/-- The copper comes closer to an item than the minimum clearance. -/
def TooClose (b : Board) (outline : Capsule) (i : Item) : Prop :=
  ∃ gap, outline.gap i.outline = .ok gap ∧ gap < b.design.minClearance.toFloat

/-- **In conflict**: an item of another net, or of any net with copper of net `0`, that shares a
layer with the copper and comes too close to it. -/
def InConflict (b : Board) (d : Draft) (i : Item) : Prop :=
  (d.net = 0 ∨ i.net ≠ d.net) ∧ i.layers.intersects d.layers = true ∧ b.TooClose d.outline i

instance (b : Board) (outline : Capsule) (i : Item) : Decidable (b.TooClose outline i) :=
  match h : outline.gap i.outline with
  | .ok gap => decidable_of_iff (gap < b.design.minClearance.toFloat)
      ⟨fun hclose => ⟨gap, h, hclose⟩, fun ⟨gap', hgap', hclose⟩ => by
        rw [Except.ok.inj (h.symm.trans hgap')]
        exact hclose⟩
  | .error _ => .isFalse fun ⟨_, hgap, _⟩ => by cases h.symm.trans hgap

instance (b : Board) (d : Draft) (i : Item) : Decidable (b.InConflict d i) :=
  inferInstanceAs (Decidable (_ ∧ _ ∧ _))

/-- **The obstacles of copper**: exactly the items in conflict with some piece of it that are not
exempt, each once. -/
structure Obstacles (b : Board) (copper : List Draft) (Exempt : ItemId → Prop)
    (hits : List ItemId) : Prop where
  nodup : hits.Nodup
  mem_iff : ∀ id, id ∈ hits ↔
    ¬ Exempt id ∧ ∃ i ∈ b.items, i.id = id ∧ ∃ d ∈ copper, b.InConflict d i
  /-- What comes before the first one is free of conflicts. -/
  first : ∀ hit rest, hits = hit :: rest → ∃ before d after nearer i farther,
    copper = before ++ d :: after ∧ b.items = nearer ++ i :: farther ∧ i.id = hit ∧
      b.InConflict d i ∧ (∀ e ∈ before, ∀ j ∈ b.items, b.InConflict e j → Exempt j.id) ∧
      ∀ j ∈ nearer, b.InConflict d j → Exempt j.id

variable {b : Board}

/-- **What may be in the way**: another item of another net on a common layer. -/
theorem mayObstruct_iff {net : NetCode} {layers : LayerRange} {exempt : List ItemId} {i : Item} :
    mayObstruct net layers exempt i = true ↔
      i.id ∉ exempt ∧ (net = 0 ∨ i.net ≠ net) ∧ i.layers.intersects layers = true := by
  simp [mayObstruct, and_assoc]

/-- The items that one piece of copper conflicts with, in the order of the board. -/
def conflicting (b : Board) (exempt : List ItemId) (d : Draft) : List ItemId :=
  (b.items.filter fun i => i.id ∉ exempt ∧ b.InConflict d i).map Item.id

/-- The conflicts of one piece of copper are the items that are in its way. -/
theorem conflicts_eq_ok {d : Draft} {exempt hits : List ItemId}
    (h : b.conflicts d.outline d.layers d.net exempt = .ok hits) :
    hits = b.conflicting exempt d := by
  obtain ⟨measured, hmeasured, h⟩ := Checked.bind_eq_ok.mp h
  obtain rfl := Checked.pure_eq_ok.mp h
  have hpairs : measured.map (fun m => (m.1, decide (m.2 < b.design.minClearance.toFloat))) =
      (b.items.filter (mayObstruct d.net d.layers exempt)).map fun i =>
        (i.id, decide (b.TooClose d.outline i)) := by
    refine map_eq_of_mapM (fun i m hm => ?_) hmeasured
    obtain ⟨gap, hgap, hm⟩ := Checked.bind_eq_ok.mp hm
    cases hm
    have hclose : b.TooClose d.outline i ↔ gap < b.design.minClearance.toFloat :=
      ⟨fun ⟨gap', hgap', hclose⟩ => Except.ok.inj (hgap.symm.trans hgap') ▸ hclose,
        fun hclose => ⟨gap, hgap, hclose⟩⟩
    simp only [hclose]
  have hchosen := congrArg (fun pairs => (pairs.filter Prod.snd).map Prod.fst) hpairs
  simp only [List.filter_map, List.map_map, List.filter_filter, Function.comp_def] at hchosen
  refine hchosen.trans ?_
  unfold conflicting
  congr 1
  refine List.filter_congr fun i _ => Bool.eq_iff_iff.mpr ?_
  rw [Bool.and_eq_true, mayObstruct_iff, decide_eq_true_iff, decide_eq_true_iff]
  exact ⟨fun ⟨hclose, hfree, hnet, hlayers⟩ => ⟨hfree, hnet, hlayers, hclose⟩,
    fun ⟨hfree, hnet, hlayers, hclose⟩ => ⟨hclose, hfree, hnet, hlayers⟩⟩

/-- Those of several pieces come piece by piece, each once. -/
theorem allConflicts_eq_ok {copper : List Draft} {exempt hits : List ItemId}
    (h : b.allConflicts copper exempt = .ok hits) :
    hits = (copper.flatMap (b.conflicting exempt)).eraseDups := by
  obtain ⟨found, hfound, h⟩ := Checked.bind_eq_ok.mp h
  have hall : found.map id = copper.map (b.conflicting exempt) :=
    map_eq_of_mapM (fun _ _ => conflicts_eq_ok) hfound
  rw [List.map_id] at hall
  rw [← Checked.pure_eq_ok.mp h, hall, List.flatMap_def]

end Board

/-- **What the engine lists** are the obstacles. -/
theorem Board.obstacles_of_allConflicts {b : Board} {copper : List Draft}
    {exempt hits : List ItemId} (h : b.allConflicts copper exempt = .ok hits) :
    b.Obstacles copper (· ∈ exempt) hits := by
  obtain rfl := allConflicts_eq_ok h
  refine ⟨nodup_eraseDups _, fun id => ?_, fun hit rest hhits => ?_⟩
  · simp only [List.mem_eraseDups, List.mem_flatMap, conflicting, List.mem_map, List.mem_filter,
      decide_eq_true_eq]
    constructor
    · rintro ⟨d, hd, i, ⟨hi, hfree, hconflict⟩, rfl⟩
      exact ⟨hfree, i, hi, rfl, d, hd, hconflict⟩
    · rintro ⟨hfree, i, hi, rfl, d, hd, hconflict⟩
      exact ⟨d, hd, i, ⟨hi, hfree, hconflict⟩, rfl⟩
  · have hfirst := congrArg List.head? hhits
    rw [head?_eraseDups, List.head?_flatMap] at hfirst
    obtain ⟨before, d, after, hcopper, hfound, hnone⟩ := List.findSome?_eq_some_iff.mp hfirst
    rw [conflicting, List.head?_map, List.head?_filter] at hfound
    obtain ⟨i, hi, hsame⟩ := Option.map_eq_some_iff.mp hfound
    obtain ⟨hhit, nearer, farther, hitems, hfarther⟩ := List.find?_eq_some_iff_append.mp hi
    refine ⟨before, d, after, nearer, i, farther, hcopper, hitems, hsame,
      (of_decide_eq_true hhit).2, fun e he j hj hconflict => ?_, fun j hj hconflict => ?_⟩
    · have hnone := hnone e he
      rw [conflicting, List.head?_eq_none_iff, List.map_eq_nil_iff, List.filter_eq_nil_iff] at hnone
      by_contra hfree
      exact hnone j hj (decide_eq_true ⟨hfree, hconflict⟩)
    · have hfarther := hfarther j hj
      by_contra hfree
      simp [hfree, hconflict] at hfarther

/-- A head may touch the copper that it leaves from and the copper that it ends on. -/
def RouteRequest.Exempts (r : RouteRequest) (b : Board) (id : ItemId) : Prop :=
  r.startItem = some id ∨ ∃ i, r.EndsOn b i ∧ i.id = id

/-- A route that is drawn names all its obstacles. -/
theorem Board.obstacles_of_routeGeometry {b : Board} {r : RouteRequest} {g : RouteGeometry}
    (h : b.routeGeometry r = .ok g) : b.Obstacles g.items (r.Exempts b) g.collisions := by
  obtain ⟨points, _, h⟩ := Checked.bind_eq_ok.mp h
  obtain ⟨hits, hhits, h⟩ := Checked.bind_eq_ok.mp h
  cases h
  have hexempt : (· ∈ r.startItem.toList ++ ((b.routeTarget r).map Item.id).toList) =
      r.Exempts b := by
    funext id
    simp [RouteRequest.Exempts, routeTarget_eq_some]
  rw [← hexempt]
  exact obstacles_of_allConflicts hhits

/-- A drag that is shown names all its obstacles. -/
theorem Board.obstacles_of_dragGeometry {b : Board} {grabbed moved : List Item} {g : DragGeometry}
    (h : b.dragGeometry grabbed moved = .ok g) :
    b.Obstacles (g.modified.map Item.draft) (· ∈ g.modified.map Item.id) g.collisions :=
  obstacles_of_allConflicts (dragGeometry_eq_ok h).2

/-- **The mode decides about rejection alone.**  Where obstacles are only marked, the geometry is
the answer.  The other modes agree with each other: they answer exactly when nothing is in the way,
with the same geometry, and otherwise name the first item that is. -/
structure Settled {α : Type} (answers : RouterMode → Checked (Except EngineFailure α))
    (geometry : α) (hits : List ItemId) : Prop where
  marked : answers .markObstacles = .ok (.ok geometry)
  agree : answers .shove = answers .walkaround
  accepts_iff : (∃ g, answers .walkaround = .ok (.ok g)) ↔ hits = []
  accepted : hits = [] → answers .walkaround = .ok (.ok geometry)
  rejected : ∀ hit rest, hits = hit :: rest → answers .walkaround = .ok (.error (.noSolution hit))

/-- What the router mode accepts is settled by the obstacles. -/
theorem settled_settle {α : Type} (geometry : α) (hits : List ItemId) :
    Settled (fun mode => .ok (settle mode hits geometry)) geometry hits := by
  cases hits with
  | nil => exact ⟨rfl, rfl, ⟨fun _ => rfl, fun _ => ⟨geometry, rfl⟩⟩, fun _ => rfl, nofun⟩
  | cons hit rest =>
      refine ⟨rfl, rfl, ⟨fun ⟨g, hg⟩ => ?_, nofun⟩, nofun, fun hit' rest' hsame => ?_⟩
      · cases hg
      · cases hsame
        rfl

namespace World

/-- **What an engine makes of one question** in the three modes: nothing without a world, and with
one answers about a geometry and the items in its way, of which `Exact` holds. -/
inductive Settles {α : Type} (w : World)
    (answers : RouterMode → Checked (Except EngineFailure α)) (hits : α → List ItemId)
    (Exact : Board → α → Prop) : Prop
  | unloaded (hworld : w = none) (hnone : ∀ mode, answers mode = .ok (.error .noWorld))
  | loaded {b : Board} {geometry : α} (hworld : w = some b) (hexact : Exact b geometry)
      (hsettled : Settled answers geometry (hits geometry))

/-- A head that is asked for without overflow in one mode. -/
theorem route_settles {w : World} {r : RouteRequest}
    {answer : Except EngineFailure RouteGeometry} (h : w.route r = .ok answer) :
    w.Settles (fun mode => w.route { r with mode := mode }) RouteGeometry.collisions
      fun b g => b.Obstacles g.items (r.Exempts b) g.collisions := by
  cases w with
  | none => exact .unloaded rfl fun _ => rfl
  | some b =>
      obtain ⟨g, hg, _⟩ := Checked.bind_eq_ok.mp h
      refine .loaded rfl (Board.obstacles_of_routeGeometry hg) ?_
      -- the geometry does not depend on the mode
      have hanswers : (fun mode => World.route (some b) { r with mode := mode }) =
          fun mode => .ok (settle mode g.collisions g) := by
        funext mode
        have hsame : b.routeGeometry { r with mode := mode } = .ok g := hg
        simp only [route, hsame]
        rfl
      rw [hanswers]
      exact settled_settle g g.collisions

theorem drag_settles {w : World} {grabbed moved : List Item} {mode : RouterMode}
    {answer : Except EngineFailure DragGeometry} (h : w.drag grabbed moved mode = .ok answer) :
    w.Settles (w.drag grabbed moved) DragGeometry.collisions fun b g =>
      b.Obstacles (g.modified.map Item.draft) (· ∈ g.modified.map Item.id) g.collisions := by
  cases w with
  | none => exact .unloaded rfl fun _ => rfl
  | some b =>
      obtain ⟨g, hg, _⟩ := Checked.bind_eq_ok.mp h
      refine .loaded rfl (Board.obstacles_of_dragGeometry hg) ?_
      have hanswers : World.drag (some b) grabbed moved =
          fun mode => .ok (settle mode g.collisions g) := by
        funext mode
        simp only [drag, hg]
        rfl
      rw [hanswers]
      exact settled_settle g g.collisions

/-- **The three modes** give the same answers to every question whose arithmetic does not overflow,
except that all but marking reject an answer that has obstacles in its way: for a head these are
other than the copper at its two ends, for a drag other than what it changes. -/
theorem modes_settle (w : World) :
    (∀ r answer, w.route r = .ok answer →
      w.Settles (fun mode => w.route { r with mode := mode }) RouteGeometry.collisions
        fun b g => b.Obstacles g.items (r.Exempts b) g.collisions) ∧
      ∀ grabbed moved mode answer, w.drag grabbed moved mode = .ok answer →
        w.Settles (w.drag grabbed moved) DragGeometry.collisions fun b g =>
          b.Obstacles (g.modified.map Item.draft) (· ∈ g.modified.map Item.id) g.collisions :=
  ⟨fun _ _ => route_settles, fun _ _ _ _ => drag_settles⟩

end World

/-- A track, and a pad of a third net beyond it. -/
def trackBeforePad : Board :=
  { Board.standard with
    items := [⟨1, .segment ⟨⟨1000000, 0⟩, ⟨1000000, 2000000⟩⟩ 200000, 2, LayerRange.single ⟨0⟩, false,
        none⟩,
      ⟨2, .solid ⟨3000000, 1000000⟩ 100000, 3, LayerRange.single ⟨0⟩, false, none⟩]
    nextId := 3 }

/-- Over a corner on the track and across the pad. -/
def acrossBoth : RouteRequest :=
  { start := Point.zero, startItem := none, layer := ⟨0⟩, stop := ⟨4000000, 1000000⟩
    stopItem := none, net := 1, trackWidth := 250000, via := none
    mode := .walkaround, posture := .diagonalFirst, ortho := false, rounded := false }

/-- The pad, moved onto the track. -/
def padOnTrack : Item :=
  ⟨2, .solid ⟨1000000, 500000⟩ 100000, 3, LayerRange.single ⟨0⟩, false, none⟩

/-- Both pieces of the head hit the track, which is listed once. -/
theorem World.modes_settle_crossing :
    (∃ g, World.route (some trackBeforePad) { acrossBoth with mode := .markObstacles } =
        .ok (.ok g) ∧ g.collisions = [1, 2] ∧
      World.route (some trackBeforePad) { acrossBoth with mode := .shove } =
        .ok (.error (.noSolution 1))) ∧
    ∃ g, World.drag (some trackBeforePad) [trackBeforePad.items[1]] [padOnTrack] .markObstacles =
        .ok (.ok g) ∧ g.collisions = [1] ∧
      World.drag (some trackBeforePad) [trackBeforePad.items[1]] [padOnTrack] .shove =
        .ok (.error (.noSolution 1)) := by
  have hshown : (World.route (some trackBeforePad)
      { acrossBoth with mode := .markObstacles }).toOption.map
        (fun answer => answer.toOption.map RouteGeometry.collisions) = some (some [1, 2]) := by
    decide +kernel
  have hseen : (World.drag (some trackBeforePad) [trackBeforePad.items[1]] [padOnTrack]
      .markObstacles).toOption.map (fun answer => answer.toOption.map DragGeometry.collisions) =
        some (some [1]) := by
    decide +kernel
  obtain ⟨answer, hanswer, hshown⟩ := exists_of_toOption_map hshown
  obtain ⟨g, rfl, hhits⟩ := exists_of_toOption_map hshown
  obtain ⟨answer', hanswer', hseen⟩ := exists_of_toOption_map hseen
  obtain ⟨g', rfl, hhits'⟩ := exists_of_toOption_map hseen
  obtain ⟨hroute, hdrag⟩ := modes_settle (some trackBeforePad)
  constructor
  · cases hroute _ _ hanswer with
    | unloaded hworld => cases hworld
    | loaded hworld _ hsettled =>
        cases hsettled.marked.symm.trans hanswer
        exact ⟨g, hanswer, hhits, hsettled.agree.trans (hsettled.rejected 1 [2] hhits)⟩
  · cases hdrag _ _ _ _ hanswer' with
    | unloaded hworld => cases hworld
    | loaded hworld _ hsettled =>
        cases hsettled.marked.symm.trans hanswer'
        exact ⟨g', hanswer', hhits', hsettled.agree.trans (hsettled.rejected 1 [] hhits')⟩

end CopperRoute
