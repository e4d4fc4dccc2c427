import CopperRoute.Path.Engine
import CopperRoute.Proofs.LayerSpans
import CopperRoute.Proofs.Runs
import Mathlib.Data.List.Chain

/-!
# The copper of a head

Two pieces of copper are **joined** when they share an anchor and a layer.  A list of
copper **leads** from one place to another when neighbours are joined and the ends lie
where they should (`Leads`); such lists can be put together (`Leads.append`).

The engine's head leads from the start of the request to the point it reports, on the
layer of the request, and through its via to any layer that the via spans
(`Board.routeGeometry_leads`).
-/

namespace CopperRoute

namespace Draft

/-- The two pieces have an anchor in common: the end of a track or the middle of a via. -/
def Touches (d e : Draft) : Prop := ∃ p ∈ d.shape.anchors, p ∈ e.shape.anchors

/-- The two pieces touch, and some layer belongs to both. -/
def Joined (d e : Draft) : Prop := d.Touches e ∧ d.layers.intersects e.layers = true

instance (d e : Draft) : Decidable (d.Touches e) :=
  inferInstanceAs (Decidable (∃ p ∈ d.shape.anchors, p ∈ e.shape.anchors))

instance (d e : Draft) : Decidable (d.Joined e) :=
  inferInstanceAs (Decidable (_ ∧ _))

/-- Copper with an anchor and a layer in common is joined. -/
theorem joined_of_mem {d e : Draft} {p : Point} {l : LayerId} (hd : p ∈ d.shape.anchors)
    (he : p ∈ e.shape.anchors) (hdl : d.layers.contains l = true)
    (hel : e.layers.contains l = true) : d.Joined e :=
  ⟨⟨p, hd, he⟩, LayerRange.intersects_of_contains hdl hel⟩

end Draft

/-- **Copper that leads** from a point on one layer to a point on another.  No copper
leads nowhere else. -/
structure Leads (p : Point) (l : LayerId) (copper : List Draft) (q : Point) (m : LayerId) :
    Prop where
  joined : copper.IsChain Draft.Joined
  first : ∀ d, copper.head? = some d → p ∈ d.shape.anchors ∧ d.layers.contains l = true
  last : ∀ d, copper.getLast? = some d → q ∈ d.shape.anchors ∧ d.layers.contains m = true
  still : copper = [] → p = q ∧ l = m

namespace Leads

theorem nil (p : Point) (l : LayerId) : Leads p l [] p l :=
  ⟨.nil, by simp, by simp, fun _ => ⟨rfl, rfl⟩⟩

/-- A single piece leads between any of its anchors and layers. -/
theorem singleton {p q : Point} {l m : LayerId} {d : Draft} (hp : p ∈ d.shape.anchors)
    (hq : q ∈ d.shape.anchors) (hl : d.layers.contains l = true)
    (hm : d.layers.contains m = true) : Leads p l [d] q m := by
  refine ⟨.singleton d, ?_, ?_, by simp⟩
  · intro e he
    cases he
    exact ⟨hp, hl⟩
  · intro e he
    cases he
    exact ⟨hq, hm⟩

/-- **Where one piece of the way ends the next may begin.** -/
theorem append {p q r : Point} {l m n : LayerId} {copper more : List Draft}
    (h : Leads p l copper q m) (h' : Leads q m more r n) : Leads p l (copper ++ more) r n := by
  have hseam : ∀ d ∈ copper.getLast?, ∀ e ∈ more.head?, d.Joined e := by
    intro d hd e he
    obtain ⟨hdq, hdm⟩ := h.last d hd
    obtain ⟨heq, hem⟩ := h'.first e he
    exact Draft.joined_of_mem hdq heq hdm hem
  refine ⟨List.isChain_append.mpr ⟨h.joined, h'.joined, hseam⟩, ?_, ?_, ?_⟩
  · intro d hd
    cases copper with
    | nil =>
        obtain ⟨rfl, rfl⟩ := h.still rfl
        exact h'.first d hd
    | cons c rest => exact h.first d hd
  · intro d hd
    rcases List.eq_nil_or_concat more with rfl | ⟨rest, e, rfl⟩
    · obtain ⟨rfl, rfl⟩ := h'.still rfl
      rw [List.append_nil] at hd
      exact h.last d hd
    · refine h'.last d ?_
      simpa using hd
  · intro hnil
    obtain ⟨hcopper, hmore⟩ := List.append_eq_nil_iff.mp hnil
    obtain ⟨rfl, rfl⟩ := h.still hcopper
    exact h'.still hmore

end Leads

section DropRepeats

variable {α : Type} [DecidableEq α]

theorem head?_dropRepeats (as : List α) : (dropRepeats as).head? = as.head? := by
  induction as with
  | nil => rfl
  | cons a as ih =>
      cases as with
      | nil => rfl
      | cons b rest =>
          rw [dropRepeats]
          split
          · next hab =>
              rw [ih, hab]
              rfl
          · rfl

theorem getLast?_dropRepeats (as : List α) : (dropRepeats as).getLast? = as.getLast? := by
  induction as with
  | nil => rfl
  | cons a as ih =>
      cases as with
      | nil => rfl
      | cons b rest =>
          rw [dropRepeats, List.getLast?_cons_cons]
          split
          · exact ih
          · rw [← ih]
            cases hrest : dropRepeats (b :: rest) with
            | nil =>
                have hhead := head?_dropRepeats (b :: rest)
                rw [hrest] at hhead
                cases hhead
            | cons c rest' => exact List.getLast?_cons_cons

/-- No two neighbours are left equal. -/
theorem isChain_dropRepeats (as : List α) : (dropRepeats as).IsChain (· ≠ ·) := by
  induction as with
  | nil => exact .nil
  | cons a as ih =>
      cases as with
      | nil => exact .singleton a
      | cons b rest =>
          rw [dropRepeats]
          split
          · exact ih
          · next hab =>
              refine List.isChain_cons.mpr ⟨fun c hc => ?_, ih⟩
              rw [head?_dropRepeats] at hc
              cases hc
              exact hab

end DropRepeats

/-- The points of a head: its ends, and between them the corner or what it is bent to. -/
theorem headPoints_eq_ok {r : RouteRequest} {stop : Point} {points : List Point}
    (h : headPoints r stop = .ok points) :
    ∃ corner middle, headCorner r.start stop r.posture r.ortho = .ok corner ∧
      bend r.start corner stop r.trackWidth r.rounded = .ok middle ∧
      points = dropRepeats (r.start :: middle ++ [stop]) := by
  obtain ⟨corner, hcorner, h⟩ := Checked.bind_eq_ok.mp h
  obtain ⟨middle, hmiddle, h⟩ := Checked.bind_eq_ok.mp h
  exact ⟨corner, middle, hcorner, hmiddle, (Checked.pure_eq_ok.mp h).symm⟩

/-- A head begins where the request starts and ends where it is led to. -/
theorem headPoints_ends {r : RouteRequest} {stop : Point} {points : List Point}
    (h : headPoints r stop = .ok points) :
    points.head? = some r.start ∧ points.getLast? = some stop := by
  obtain ⟨corner, middle, _, _, rfl⟩ := headPoints_eq_ok h
  rw [head?_dropRepeats, getLast?_dropRepeats]
  exact ⟨rfl, List.getLast?_concat⟩

theorem headPoints_isChain {r : RouteRequest} {stop : Point} {points : List Point}
    (h : headPoints r stop = .ok points) : points.IsChain (· ≠ ·) := by
  obtain ⟨corner, middle, _, _, rfl⟩ := headPoints_eq_ok h
  exact isChain_dropRepeats _

/-- The tracks along a list of points lead from the first to the last. -/
theorem tracksAlong_leads (r : RouteRequest) {points : List Point} {p q : Point}
    (hp : points.head? = some p) (hq : points.getLast? = some q) :
    Leads p r.layer (tracksAlong r points) q r.layer := by
  induction points generalizing p with
  | nil => cases hp
  | cons a rest ih =>
      cases hp
      cases rest with
      | nil =>
          cases hq
          exact Leads.nil a r.layer
      | cons b rest =>
          have htrack : Leads a r.layer [Draft.track ⟨a, b⟩ r.trackWidth r.layer r.net] b r.layer :=
            Leads.singleton (List.mem_cons_self ..) (List.mem_cons_of_mem _ (List.mem_cons_self ..))
              (LayerRange.contains_single _) (LayerRange.contains_single _)
          exact htrack.append (ih rfl (by simpa using hq))

namespace Board

variable {b : Board} {r : RouteRequest} {g : RouteGeometry}

/-- **What a head is**: tracks along its points and the via if it has one, to the target or, without
one, to the pointer. -/
theorem routeGeometry_eq_ok (h : b.routeGeometry r = .ok g) :
    (∃ points, headPoints r g.stop = .ok points ∧
      g.items = tracksAlong r points ++ (headVia r g.stop).toList) ∧
    g.stop = ((b.routeTarget r).map fun i => i.snapPoint r.stop).getD r.stop ∧
    g.stopLayer = headLayer r ∧ g.reachedTarget = (b.routeTarget r).isSome := by
  obtain ⟨points, hpoints, h⟩ := Checked.bind_eq_ok.mp h
  obtain ⟨hits, _, h⟩ := Checked.bind_eq_ok.mp h
  cases h
  refine ⟨⟨points, hpoints, rfl⟩, ?_, rfl, rfl⟩
  cases b.routeTarget r with
  | none => rfl
  | some i => rfl

theorem routeGeometry_items (h : b.routeGeometry r = .ok g) :
    ∃ points, headPoints r g.stop = .ok points ∧
      g.items = tracksAlong r points ++ (headVia r g.stop).toList :=
  (routeGeometry_eq_ok h).1

/-- Where the route goes on does not depend on the board. -/
theorem routeGeometry_stopLayer (h : b.routeGeometry r = .ok g) : g.stopLayer = headLayer r :=
  (routeGeometry_eq_ok h).2.2.1

/-- A head has reached its target when there is one to end on. -/
theorem routeGeometry_reachedTarget (h : b.routeGeometry r = .ok g) :
    g.reachedTarget = (b.routeTarget r).isSome :=
  (routeGeometry_eq_ok h).2.2.2

/-- **The head leads** from the start of the request to the point that it reports:
without a via on one layer, with a via to any layer that the via spans. -/
theorem routeGeometry_leads {layer : LayerId} (h : b.routeGeometry r = .ok g)
    (hplain : r.via = none → layer = r.layer)
    (hvia : ∀ v, r.via = some v → (LayerRange.ofPair v.span).contains r.layer = true ∧
      (LayerRange.ofPair v.span).contains layer = true) :
    Leads r.start r.layer g.items g.stop layer := by
  obtain ⟨points, hpoints, hitems⟩ := routeGeometry_items h
  obtain ⟨hfirst, hlast⟩ := headPoints_ends hpoints
  rw [hitems]
  refine (tracksAlong_leads r hfirst hlast).append ?_
  cases hv : r.via with
  | none =>
      rw [hplain hv]
      simp only [headVia, hv]
      exact Leads.nil _ _
  | some v =>
      obtain ⟨hhere, hthere⟩ := hvia v hv
      simp only [headVia, hv]
      exact Leads.singleton (List.mem_cons_self ..) (List.mem_cons_self ..) hhere hthere

end Board

/-- What the engine answers is the geometry that its world gives. -/
theorem World.route_eq_ok {w : World} {r : RouteRequest} {g : RouteGeometry}
    (h : w.route r = .ok (.ok g)) : ∃ b, w = some b ∧ b.routeGeometry r = .ok g := by
  cases w with
  | none => cases h
  | some b =>
      obtain ⟨g', hg, h⟩ := Checked.bind_eq_ok.mp h
      have hsame : settle r.mode g'.collisions g' = .ok g := Except.ok.inj h
      unfold settle at hsame
      split at hsame
      · cases hsame
        exact ⟨b, rfl, hg⟩
      · cases hsame
        exact ⟨b, rfl, hg⟩
      · cases hsame

end CopperRoute
