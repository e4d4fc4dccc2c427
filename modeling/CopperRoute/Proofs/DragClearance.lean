import CopperRoute.Proofs.FreeDrags
import CopperRoute.Proofs.MovedCopper

/-!
# Clearance behind a drag

Two items of different nets on a common layer are **rivals**, and they are **clear** of each other
when their outlines keep the minimum clearance of the board.  An engine that does not just mark
obstacles gives an answer to a drag only when it finds no conflict.

It looks for conflicts of what the drag changes with what rests: from the items of its world it
leaves out all that are changed, since these are not where they were.  So what is changed is clear
of its resting rivals (`World.drag_clear_of_resting`).  But where the changed items are now is not
looked at either.  Two of them may come together, such as a pad and the track that follows another
pad of its footprint (`World.drag_not_keepsClear`), and apart from that the drag leaves clear what
was clear before (`World.drag_keepsClear_iff`).
-/

namespace CopperRoute

/-- Items that have to keep clear of each other: they differ in net and share a layer. -/
def Item.Rivals (i j : Item) : Prop := i.net ≠ j.net ∧ i.layers.intersects j.layers = true

/-- **Clear of another item**: the free space to it is not below the minimum clearance. -/
def Board.Clear (b : Board) (i j : Item) : Prop :=
  ∃ gap, i.outline.gap j.outline = .ok gap ∧ ¬ gap < b.design.minClearance.toFloat

instance (i j : Item) : Decidable (i.Rivals j) := inferInstanceAs (Decidable (_ ∧ _))

instance (b : Board) (i j : Item) : Decidable (b.Clear i j) :=
  match h : i.outline.gap j.outline with
  | .ok gap => decidable_of_iff (¬ gap < b.design.minClearance.toFloat)
      ⟨fun hfar => ⟨gap, h, hfar⟩, fun ⟨gap', hgap', hfar⟩ => by
        rw [Except.ok.inj (h.symm.trans hgap')]
        exact hfar⟩
  | .error _ => .isFalse fun ⟨_, hgap, _⟩ => by cases h.symm.trans hgap

theorem LayerRange.intersects_comm (r s : LayerRange) : r.intersects s = s.intersects r :=
  Bool.and_comm ..

/-- An answer that is accepted where obstacles are not just marked has none in its way. -/
theorem settle_accepted {α : Type} {mode : RouterMode} {collisions : List ItemId} {answer a : α}
    (hmode : mode ≠ .markObstacles) (h : settle mode collisions answer = .ok a) :
    collisions = [] := by
  unfold settle at h
  split at h
  · exact absurd rfl hmode
  · rfl
  · cases h

namespace Board

variable {b : Board} {g : DragGeometry}

/-- Copper without conflicts keeps the minimum clearance to all that may obstruct it. -/
theorem clear_of_conflicts {outline : Capsule} {layers : LayerRange} {net : NetCode}
    {exempt : List ItemId} {j : Item} (h : b.conflicts outline layers net exempt = .ok [])
    (hj : j ∈ b.items) (hobstructs : mayObstruct net layers exempt j = true) :
    ∃ gap, outline.gap j.outline = .ok gap ∧ ¬ gap < b.design.minClearance.toFloat := by
  obtain ⟨measured, hmeasured, h⟩ := Checked.bind_eq_ok.mp h
  have hnone : (measured.filter fun m => m.2 < b.design.minClearance.toFloat) = [] :=
    List.map_eq_nil_iff.mp (Checked.pure_eq_ok.mp h)
  have hj : j ∈ b.items.filter (mayObstruct net layers exempt) :=
    List.mem_filter.mpr ⟨hj, hobstructs⟩
  obtain ⟨m, hthere, hm⟩ := exists_mem_of_mapM hmeasured hj
  obtain ⟨gap, hgap, hm⟩ := Checked.bind_eq_ok.mp hm
  cases hm
  exact ⟨gap, hgap, by simpa using List.filter_eq_nil_iff.mp hnone _ hthere⟩

/-- Copper without conflicts has none in any part. -/
theorem conflicts_of_allConflicts {copper : List Draft} {exempt : List ItemId} {d : Draft}
    (h : b.allConflicts copper exempt = .ok []) (hd : d ∈ copper) :
    b.conflicts d.outline d.layers d.net exempt = .ok [] := by
  obtain ⟨hits, hhits, h⟩ := Checked.bind_eq_ok.mp h
  have hnone : hits.flatten = [] := by
    cases hflat : hits.flatten with
    | nil => rfl
    | cons hit rest =>
        rw [hflat, List.eraseDups_cons] at h
        cases h
  obtain ⟨ids, hthere, hids⟩ := exists_mem_of_mapM hhits hd
  rw [hids, List.flatten_eq_nil_iff.mp hnone ids hthere]

/-- **What is changed is clear of what rests**, when the geometry of a drag has nothing in its
way. -/
theorem clear_of_resting {grabbed moved : List Item} (h : b.dragGeometry grabbed moved = .ok g)
    (hnone : g.collisions = []) {i j : Item} (hi : i ∈ g.modified) (hj : j ∈ b.items)
    (hrests : j.id ∉ g.modified.map Item.id) (hrivals : i.Rivals j) : b.Clear i j := by
  have hconflicts := (dragGeometry_eq_ok h).2
  rw [hnone] at hconflicts
  have hpart := conflicts_of_allConflicts hconflicts (List.mem_map_of_mem hi)
  have hobstructs : mayObstruct i.net i.layers (g.modified.map Item.id) j = true := by
    have hfree : (g.modified.map Item.id).contains j.id = false := by simpa using hrests
    have hother : (j.net != i.net) = true := by simpa using hrivals.1.symm
    rw [mayObstruct, hfree, hother, LayerRange.intersects_comm, hrivals.2, Bool.or_true]
    rfl
  exact clear_of_conflicts hpart hj hobstructs

/-- **A drag leaves clear what was clear**: of two rivals, one of them changed, that keep clear of
each other before it, that is so afterwards.  Both are taken as the drag leaves them. -/
def KeepsClear (b : Board) (g : DragGeometry) : Prop :=
  ∀ i ∈ b.items, ∀ j ∈ b.items, ∀ i' j', g.Leaves i i' → g.Leaves j j' → i' ∈ g.modified →
    i'.Rivals j' → b.Clear i j → b.Clear i' j'

/-- **A drag brings items together**: two rivals that were clear of each other are both changed, and
are not clear of each other any more. -/
def BringsTogether (b : Board) (g : DragGeometry) : Prop :=
  ∃ i ∈ b.items, ∃ j ∈ b.items, ∃ i' ∈ g.modified, ∃ j' ∈ g.modified, i'.id = i.id ∧ j'.id = j.id ∧
    i'.Rivals j' ∧ b.Clear i j ∧ ¬ b.Clear i' j'

theorem keepsClear_iff {grabbed moved : List Item} (h : b.dragGeometry grabbed moved = .ok g)
    (hnone : g.collisions = []) : b.KeepsClear g ↔ ¬ b.BringsTogether g := by
  constructor
  · rintro hkeeps ⟨i, hi, j, hj, i', hi', j', hj', hiid, hjid, hrivals, hclear, hclose⟩
    exact hclose (hkeeps i hi j hj i' j' (.displayed hi' hiid) (.displayed hj' hjid) hi' hrivals
      hclear)
  · intro hapart i hi j hj i' j' hii' hjj' hi' hrivals hclear
    have hiid : i'.id = i.id := by
      cases hii' with
      | displayed _ hid => exact hid
      | resting => rfl
    cases hjj' with
    | displayed hj' hjid =>
        by_contra hclose
        exact hapart ⟨i, hi, j, hj, i', hi', j', hj', hiid, hjid, hrivals, hclear, hclose⟩
    | resting hrests => exact clear_of_resting h hnone hi' hj hrests hrivals

/-- Whatever is changed has the net of what was grabbed, when that is one net. -/
theorem net_of_modified {grabbed moved : List Item} {net : NetCode} {i : Item}
    (hgrabbed : ∀ i ∈ grabbed, i.net = net) (hmoved : ∀ i ∈ moved, i.net = net)
    (hi : i ∈ moved ++ b.followers grabbed moved) : i.net = net := by
  rcases List.mem_append.mp hi with hi | hi
  · exact hmoved i hi
  · obtain ⟨j, _, _, hji⟩ := mem_followers.mp hi
    obtain ⟨k, hk, hhangs⟩ := hangsOn_of_stretched hji
    obtain ⟨_, _, _, _, rfl⟩ := stretched?_eq_some hji
    exact hhangs.2.1.trans (hgrabbed k hk)

end Board

/-- **What an accepted drag leaves clear.**  In a mode that does not just mark obstacles, rivals
that were clear before are so afterwards exactly when no two changed ones are brought together;
and that does not happen when everything dragged has one net. -/
theorem World.drag_keepsClear_iff {b : Board} {grabbed moved : List Item} {mode : RouterMode}
    {g : DragGeometry} (hmode : mode ≠ .markObstacles)
    (h : World.drag (some b) grabbed moved mode = .ok (.ok g)) :
    (b.KeepsClear g ↔ ¬ b.BringsTogether g) ∧
      ∀ net, (∀ i ∈ grabbed, i.net = net) → (∀ i ∈ moved, i.net = net) → b.KeepsClear g := by
  obtain ⟨b', hworld, hgeometry, haccepted⟩ := drag_eq_ok h
  obtain rfl := Option.some.inj hworld
  have hiff := Board.keepsClear_iff hgeometry (settle_accepted hmode haccepted)
  refine ⟨hiff, fun net hgrabbed hmoved => hiff.mpr ?_⟩
  rintro ⟨_, _, _, _, i', hi', j', hj', _, _, hrivals, _⟩
  rw [(Board.dragGeometry_eq_ok hgeometry).1] at hi' hj'
  have hsame := (Board.net_of_modified hgrabbed hmoved hi').trans
    (Board.net_of_modified hgrabbed hmoved hj').symm
  exact hrivals.1 hsame

/-- The second pad of the footprint, moved away from the first. -/
def strayPad : Item :=
  ⟨2, .solid ⟨3000000, 1000000⟩ 100000, 2, LayerRange.single ⟨0⟩, false, some 1⟩

/-- A pad that is dragged alone stays clear of the tracks. -/
theorem World.drag_keepsClear_pad :
    RouterMode.walkaround ≠ .markObstacles ∧ ∃ g,
      World.drag (some padsWithTracks) (padsWithTracks.items.filter fun i => i.id = 2) [strayPad]
        .walkaround = .ok (.ok g) ∧
      (∀ i ∈ padsWithTracks.items.filter fun i => i.id = 2, i.net = 2) ∧
      (∀ i ∈ [strayPad], i.net = 2) ∧ padsWithTracks.KeepsClear g ∧
      ¬ padsWithTracks.BringsTogether g ∧ g.modified = [strayPad] := by
  have hmode : RouterMode.walkaround ≠ .markObstacles := by decide
  have hgrabbed : ∀ i ∈ padsWithTracks.items.filter fun i => i.id = 2, i.net = 2 := by decide
  have hmoved : ∀ i ∈ [strayPad], i.net = 2 := by decide
  have hshown : (World.drag (some padsWithTracks)
      (padsWithTracks.items.filter fun i => i.id = 2) [strayPad] .walkaround).toOption.map
        (fun answer => answer.toOption.map DragGeometry.modified) = some (some [strayPad]) := by
    decide +kernel
  obtain ⟨answer, hanswer, hshown⟩ := exists_of_toOption_map hshown
  obtain ⟨g, rfl, hmodified⟩ := exists_of_toOption_map hshown
  obtain ⟨hiff, honeNet⟩ := drag_keepsClear_iff hmode hanswer
  have hkeeps := honeNet 2 hgrabbed hmoved
  exact ⟨hmode, g, hanswer, hgrabbed, hmoved, hkeeps, hiff.mp hkeeps, hmodified⟩

/-- The pads of the footprint, dragged to a place from which the first track runs across. -/
def pulledPads : List Item :=
  [⟨1, .solid ⟨-5000000, 5000000⟩ 100000, 1, LayerRange.single ⟨0⟩, false, some 1⟩,
    ⟨2, .solid ⟨-4000000, 5000000⟩ 100000, 2, LayerRange.single ⟨0⟩, false, some 1⟩]

/-- The first track behind that drag. -/
def pulledTrack : Item :=
  ⟨3, .segment ⟨⟨-5000000, 5000000⟩, ⟨0, 5000000⟩⟩ 200000, 1, LayerRange.single ⟨0⟩, false, none⟩

/-- When a footprint is dragged, the track that follows one of its pads may come to run across the
other one. -/
theorem World.drag_not_keepsClear : ∃ g,
    World.drag (some padsWithTracks) (padsWithTracks.itemsOf 1) pulledPads .walkaround =
      .ok (.ok g) ∧ ¬ padsWithTracks.KeepsClear g := by
  have hshown : (World.drag (some padsWithTracks) (padsWithTracks.itemsOf 1) pulledPads
      .walkaround).toOption.map (fun answer => answer.toOption.map DragGeometry.modified) =
      some (some (pulledPads ++ [pulledTrack])) := by
    decide +kernel
  obtain ⟨answer, hanswer, hshown⟩ := exists_of_toOption_map hshown
  obtain ⟨g, rfl, hmodified⟩ := exists_of_toOption_map hshown
  refine ⟨g, hanswer, fun hkeeps => ?_⟩
  have hpad : pulledPads[1] ∈ g.modified := by
    rw [hmodified]
    decide
  have htrack : pulledTrack ∈ g.modified := by
    rw [hmodified]
    decide
  have hclear := hkeeps padsWithTracks.items[1] (by decide) padsWithTracks.items[2] (by decide)
    _ _ (.displayed hpad rfl) (.displayed htrack rfl) hpad (by decide) (by decide +kernel)
  have hclose : ¬ padsWithTracks.Clear pulledPads[1] pulledTrack := by decide +kernel
  exact hclose hclear

end CopperRoute
