import CopperRoute.Proofs.DragStarts
import CopperRoute.Proofs.DriftlessDrags
import CopperRoute.Proofs.HeadGeometry

/-!
# Free drags tear nothing apart

When items are dragged by any angle, all of them make the same shift.  So the anchors that a drag
moves are the anchors of the grabbed items, each shifted alike (`Board.mem_movedAnchors_iff`), and
where several of them lie in one place it does not matter which is found first.

A grabbed item takes its anchors along, and a track that was not grabbed has its ends looked up.
Both come to the same: an anchor is afterwards where the look-up leads it
(`Board.relocate_mem_anchors`).  This depends on the place of the anchor and on its net alone, and
so what has met in a point meets again (`Tool.free_tearsNothing`).
-/

namespace CopperRoute

/-- Two items have an anchor in common. -/
def Item.Touches (i j : Item) : Prop := i.draft.Touches j.draft

/-- **What a drag leaves of an item**: what is displayed under its identifier, or the item as it is
when nothing is. -/
inductive DragGeometry.Leaves (g : DragGeometry) (i : Item) : Item → Prop
  | displayed {i' : Item} (h : i' ∈ g.modified) (hid : i'.id = i.id) : Leaves g i i'
  | resting (h : i.id ∉ g.modified.map Item.id) : Leaves g i i

/-- What is made of the elements one by one stands beside them. -/
theorem mem_zip_of_mapM {α β : Type} {f : α → Checked β} {xs : List α} {ys : List β}
    (h : xs.mapM f = .ok ys) {x : α} {y : β} : (x, y) ∈ xs.zip ys ↔ x ∈ xs ∧ f x = .ok y := by
  induction xs generalizing ys with
  | nil =>
      cases h
      simp
  | cons a xs ih =>
      rw [List.mapM_cons] at h
      obtain ⟨b, hb, h⟩ := Checked.bind_eq_ok.mp h
      obtain ⟨bs, hbs, h⟩ := Checked.bind_eq_ok.mp h
      cases h
      rw [List.zip_cons_cons, List.mem_cons, Prod.mk.injEq, ih hbs, List.mem_cons]
      constructor
      · rintro (⟨rfl, rfl⟩ | ⟨hx, hxy⟩)
        · exact ⟨.inl rfl, hb⟩
        · exact ⟨.inr hx, hxy⟩
      · rintro ⟨rfl | hx, hxy⟩
        · exact .inl ⟨rfl, Except.ok.inj (hxy.symm.trans hb)⟩
        · exact .inr ⟨hx, hxy⟩

/-- A shape that is moved takes its anchors along. -/
theorem Shape.anchors_moveBy {d : Point} {s s' : Shape} (h : s.moveBy d = .ok s') :
    s.anchors.mapM (fun p => p.moveBy d) = .ok s'.anchors := by
  cases s with
  | segment axis width =>
      obtain ⟨start, hstart, h⟩ := Checked.bind_eq_ok.mp h
      obtain ⟨stop, hstop, h⟩ := Checked.bind_eq_ok.mp h
      cases h
      simp only [anchors, List.mapM_cons, List.mapM_nil, hstart, hstop]
      rfl
  | via p | solid p =>
      obtain ⟨q, hq, h⟩ := Checked.bind_eq_ok.mp h
      cases h
      simp only [anchors, List.mapM_cons, List.mapM_nil, hq]
      rfl

theorem Item.anchors_moveBy {d : Point} {i i' : Item} (h : i.moveBy d = .ok i') :
    i.anchors.mapM (fun p => p.moveBy d) = .ok i'.anchors := by
  obtain ⟨shape, hshape, h⟩ := Checked.bind_eq_ok.mp h
  cases h
  exact Shape.anchors_moveBy hshape

theorem Item.id_moveBy {d : Point} {i i' : Item} (h : i.moveBy d = .ok i') : i'.id = i.id := by
  obtain ⟨shape, _, h⟩ := Checked.bind_eq_ok.mp h
  cases h
  rfl

/-- By any angle, every item follows the whole displacement. -/
theorem Drag.constrained_of_free {mode : DragMode} (hmode : mode.contains .freeAngle = true)
    (delta : Point) : constrained mode delta = fun i => i.moveBy delta := by
  funext i
  rw [constrained, allowedShift, DragMode.isFreeAngle, if_pos hmode]
  rfl

namespace Board

variable {b : Board} {grabbed moved : List Item} {d p q : Point} {i i' j : Item}

/-- **The moved anchors** are those of the grabbed items, each with the place it is shifted to. -/
theorem mem_movedAnchors_iff (hmoved : grabbed.mapM (fun i => i.moveBy d) = .ok moved)
    {a : Point × Point × NetCode} :
    a ∈ movedAnchors grabbed moved ↔
      a.1 ≠ a.2.1 ∧ a.1.moveBy d = .ok a.2.1 ∧ ∃ j ∈ grabbed, a.1 ∈ j.anchors ∧ j.net = a.2.2 := by
  obtain ⟨p, q, net⟩ := a
  constructor
  · intro ha
    obtain ⟨⟨j, j'⟩, hpair, ha⟩ := List.mem_flatMap.mp ha
    obtain ⟨⟨p', q'⟩, ha, hsame⟩ := List.mem_map.mp ha
    obtain ⟨hanchors, hother⟩ := List.mem_filter.mp ha
    cases hsame
    obtain ⟨hj, hjj'⟩ := (mem_zip_of_mapM hmoved).mp hpair
    obtain ⟨hp, hpq⟩ := (mem_zip_of_mapM (Item.anchors_moveBy hjj')).mp hanchors
    exact ⟨by simpa using hother, hpq, j, hj, hp, rfl⟩
  · rintro ⟨hother, hpq, j, hj, hp, rfl⟩
    obtain ⟨j', _, hjj'⟩ := exists_mem_of_mapM hmoved hj
    have hpair := (mem_zip_of_mapM hmoved).mpr ⟨hj, hjj'⟩
    have hanchors := (mem_zip_of_mapM (Item.anchors_moveBy hjj')).mpr ⟨hp, hpq⟩
    refine List.mem_flatMap.mpr ⟨(j, j'), hpair, List.mem_map.mpr ⟨(p, q), ?_, rfl⟩⟩
    exact List.mem_filter.mpr ⟨hanchors, by simpa using hother⟩

/-- **An anchor of a grabbed item** is led where it is shifted to, whichever is found first. -/
theorem relocate_of_shift (hmoved : grabbed.mapM (fun i => i.moveBy d) = .ok moved)
    (hj : j ∈ grabbed) (hp : p ∈ j.anchors) (hq : p.moveBy d = .ok q) :
    relocate (movedAnchors grabbed moved) j.net p = q := by
  unfold relocate
  split
  · next a ha =>
      have hfits := List.find?_some ha
      simp only [Bool.and_eq_true, beq_iff_eq] at hfits
      obtain ⟨_, hshift, _⟩ := (mem_movedAnchors_iff hmoved).mp (List.mem_of_find?_eq_some ha)
      rw [hfits.1] at hshift
      exact Except.ok.inj (hshift.symm.trans hq)
  · next hnone =>
      -- an anchor that is not among the moved ones has stayed
      by_contra hother
      have hthere : (p, q, j.net) ∈ movedAnchors grabbed moved :=
        (mem_movedAnchors_iff hmoved).mpr ⟨hother, hq, j, hj, hp, rfl⟩
      have hmissed := List.find?_eq_none.mp hnone _ hthere
      simp at hmissed

/-- The ends of a stretched track are where the look-up leads them. -/
theorem anchors_of_stretched {anchors : List (Point × Point × NetCode)}
    (h : stretched? anchors i = some i') : i'.anchors = i.anchors.map (relocate anchors i.net) := by
  unfold stretched? at h
  split at h
  · next axis width hshape =>
      simp only at h
      split at h
      · cases h
      · cases h
        simp only [Item.anchors, Shape.anchors, hshape, List.map_cons, List.map_nil]
  · cases h

/-- The ends of a track that is not stretched are led nowhere else. -/
theorem relocate_of_not_stretched {anchors : List (Point × Point × NetCode)}
    (hsegment : i.isSegment = true) (h : stretched? anchors i = none) (hp : p ∈ i.anchors) :
    relocate anchors i.net p = p := by
  obtain ⟨id, shape, net, layers, locked, parent⟩ := i
  cases shape with
  | segment axis width =>
      simp only [stretched?, ite_eq_left_iff, reduceCtorEq, imp_false, not_not] at h
      have hp : p ∈ [axis.start, axis.stop] := hp
      rcases List.mem_pair.mp hp with rfl | rfl
      · exact congrArg Segment.start h
      · exact congrArg Segment.stop h
  | via | solid => cases hsegment

/-- **Where an anchor is afterwards**: an item that was grabbed and a track have one wherever the
look-up leads one that they had. -/
theorem relocate_mem_anchors {g : DragGeometry} (hunique : (b.items.map Item.id).Nodup)
    (hgrabbed : ∀ i ∈ grabbed, i ∈ b.items)
    (hmoved : grabbed.mapM (fun i => i.moveBy d) = .ok moved)
    (hg : g.modified = moved ++ b.followers grabbed moved) (hi : i ∈ b.items)
    (hfollows : i ∈ grabbed ∨ i.isSegment = true) (hleaves : g.Leaves i i') (hp : p ∈ i.anchors) :
    relocate (movedAnchors grabbed moved) i.net p ∈ i'.anchors := by
  have hsame {j : Item} (hj : j ∈ b.items) (hid : j.id = i.id) : j = i :=
    List.inj_on_of_nodup_map hunique hj hi hid
  cases hleaves with
  | displayed hthere hid =>
      rw [hg] at hthere
      rcases List.mem_append.mp hthere with hthere | hthere
      · obtain ⟨j, hj, hji'⟩ := mem_of_mapM hmoved hthere
        obtain rfl := hsame (hgrabbed j hj) ((Item.id_moveBy hji').symm.trans hid)
        obtain ⟨q, hmeets, hq⟩ := exists_mem_of_mapM (Item.anchors_moveBy hji') hp
        rw [relocate_of_shift hmoved hj hp hq]
        exact hmeets
      · obtain ⟨j, hj, _, hji'⟩ := mem_followers.mp hthere
        obtain rfl := hsame hj ((id_eq_of_stretched hji').symm.trans hid)
        rw [anchors_of_stretched hji']
        exact List.mem_map_of_mem hp
  | resting hfree =>
      rw [hg, List.map_append, List.mem_append, not_or] at hfree
      obtain ⟨hunmoved, hunpulled⟩ := hfree
      rw [map_eq_of_mapM (fun _ _ => Item.id_moveBy) hmoved] at hunmoved
      have hsegment : i.isSegment = true :=
        hfollows.resolve_left fun hthere => hunmoved (List.mem_map_of_mem hthere)
      have hstill : stretched? (movedAnchors grabbed moved) i = none := by
        cases hpulled : stretched? (movedAnchors grabbed moved) i with
        | none => rfl
        | some i' =>
            have hfollower := mem_followers.mpr ⟨i, hi, hunmoved, hpulled⟩
            exact absurd (List.mem_map.mpr ⟨i', hfollower, id_eq_of_stretched hpulled⟩) hunpulled
      rw [relocate_of_not_stretched hsegment hstill hp]
      exact hp

end Board

/-- **Copper stays together** when these items of the board are dragged: of two items of one net,
each of them grabbed or a track, that have an anchor in common, that is so afterwards. -/
def Board.KeepsTogether (b : Board) (grabbed : List Item) (g : DragGeometry) : Prop :=
  ∀ i ∈ b.items, ∀ j ∈ b.items, i.net = j.net → (i ∈ grabbed ∨ i.isSegment = true) →
    (j ∈ grabbed ∨ j.isSegment = true) → i.Touches j →
    ∀ i' j', g.Leaves i i' → g.Leaves j j' → i'.Touches j'

/-- What has met in a point meets where that point is led. -/
theorem Board.keepsTogether_of_shift {b : Board} {grabbed moved : List Item} {d : Point}
    {g : DragGeometry} (hunique : (b.items.map Item.id).Nodup)
    (hgrabbed : ∀ i ∈ grabbed, i ∈ b.items)
    (hmoved : grabbed.mapM (fun i => i.moveBy d) = .ok moved)
    (hg : g.modified = moved ++ b.followers grabbed moved) : b.KeepsTogether grabbed g := by
  intro i hi j hj hnet hifollows hjfollows htouches i' j' hi' hj'
  obtain ⟨p, hpi, hpj⟩ := htouches
  refine ⟨relocate (movedAnchors grabbed moved) i.net p, ?_, ?_⟩
  · exact relocate_mem_anchors hunique hgrabbed hmoved hg hi hifollows hi' hpi
  · rw [hnet]
    exact relocate_mem_anchors hunique hgrabbed hmoved hg hj hjfollows hj' hpj

/-- **A drag that tears nothing apart** on the board that the engine works on: whatever it has been
moved to before, a move that succeeds keeps copper together. -/
def Drag.TearsNothing (d₀ : Drag) (b : Board) : Prop :=
  ∀ ps d p d', d₀.visit (World.drag (some b)) ps = .ok d →
    d.moveTo (some b) p = .ok (.ok d') → b.KeepsTogether d₀.grabbed d'.displayed

theorem Drag.start_tearsNothing {b : Board} {grabbed : List Item} {anchor : Point}
    {mode : DragMode} {routerMode : RouterMode} (hunique : (b.items.map Item.id).Nodup)
    (hgrabbed : ∀ i ∈ grabbed, i ∈ b.items) (hmode : mode.contains .freeAngle = true) :
    (start grabbed anchor mode routerMode).TearsNothing b := by
  intro ps d p d' hvisit hmove
  have hcontinues := Continues.begun.visit rfl hvisit
  obtain ⟨geometry, hsolved, rfl⟩ := hcontinues.solved_of_moveWith rfl hmove
  obtain ⟨b', delta, moved, hworld, hmoved, hgeometry⟩ := solve_eq_ok hsolved
  obtain rfl := Option.some.inj hworld
  have hshifted : grabbed.mapM (fun i => i.moveBy delta) = .ok moved := by
    rw [← constrained_of_free hmode delta]
    exact hmoved
  exact Board.keepsTogether_of_shift hunique hgrabbed hshifted hgeometry

/-- A union has the flags of both. -/
theorem DragMode.contains_union_right (m n : DragMode) : (m.union n).contains n = true := by
  simp only [contains, union, beq_iff_eq]
  apply UInt8.toBitVec_inj.mp
  ext k
  simp only [UInt8.toBitVec_and, UInt8.toBitVec_or, BitVec.getElem_and, BitVec.getElem_or]
  cases n.bits.toBitVec[k] <;> simp

/-- **Free drags tear nothing apart**, and drags of footprints are free. -/
theorem Tool.free_tearsNothing {b : Board} (hunique : (b.items.map Item.id).Nodup) :
    (∀ grabbed anchor mode routerMode, (∀ i ∈ grabbed, i ∈ b.items) →
        mode.contains .freeAngle = true →
        (Drag.start grabbed anchor mode routerMode).TearsNothing b) ∧
      ∀ t t' id anchor mode op, Orderly t → t.startFootprintDrag id anchor mode = .ok t' →
        t'.session.drag? = some op → t'.board = b → op.drag.TearsNothing b := by
  refine ⟨fun grabbed anchor mode routerMode hgrabbed hmode => ?_,
    fun t t' id anchor mode op ht hstart hop hboard => ?_⟩
  · exact Drag.start_tearsNothing hunique hgrabbed hmode
  · obtain ⟨routerMode, hdrag⟩ := startFootprintDrag_starts ht hstart hop
    rw [hdrag, hboard]
    exact Drag.start_tearsNothing hunique (fun i hi => (List.mem_filter.mp hi).1)
      (mode.contains_union_right .freeAngle)

/-- A footprint with two pads of different nets, and two tracks in a row from the first of them. -/
def padsWithTracks : Board :=
  { Board.standard with
    items := [⟨1, .solid ⟨0, 0⟩ 100000, 1, LayerRange.single ⟨0⟩, false, some 1⟩,
      ⟨2, .solid ⟨1000000, 0⟩ 100000, 2, LayerRange.single ⟨0⟩, false, some 1⟩,
      ⟨3, .segment ⟨⟨0, 0⟩, ⟨0, 5000000⟩⟩ 200000, 1, LayerRange.single ⟨0⟩, false, none⟩,
      ⟨4, .segment ⟨⟨0, 5000000⟩, ⟨2000000, 5000000⟩⟩ 200000, 1, LayerRange.single ⟨0⟩, false,
        none⟩]
    footprints := [⟨1, "J1", false⟩]
    nextId := 5 }

/-- A tool that works on this board. -/
def padsTool : Tool :=
  Tool.launch padsWithTracks Options.standard [] false

/-- The footprint is dragged, the first track follows one of its pads, and the other stays. -/
theorem Tool.free_tearsNothing_footprint :
    (padsWithTracks.items.map Item.id).Nodup ∧ padsTool.Orderly ∧
      ∃ t op d, padsTool.startFootprintDrag 1 ⟨0, 0⟩ .standard = .ok t ∧
        t.session.drag? = some op ∧ t.board = padsWithTracks ∧ op.drag.TearsNothing padsWithTracks ∧
        op.drag.moveTo (some padsWithTracks) ⟨-2000000, 1000000⟩ = .ok (.ok d) ∧
        d.displayed.modified.map Item.anchors =
          [[⟨-2000000, 1000000⟩], [⟨-1000000, 1000000⟩],
            [⟨-2000000, 1000000⟩, ⟨0, 5000000⟩]] := by
  have hunique : (padsWithTracks.items.map Item.id).Nodup := by decide
  have horderly : padsTool.Orderly := orderly_new _ _ _ _ _ _
  obtain ⟨t, op, hstart, hop, hboard, hdrag⟩ :
      ∃ t op, padsTool.startFootprintDrag 1 ⟨0, 0⟩ .standard = .ok t ∧
        t.session.drag? = some op ∧ t.board = padsWithTracks ∧
        op.drag = .start (padsWithTracks.itemsOf 1) ⟨0, 0⟩ ⟨7⟩ .walkaround :=
    ⟨_, _, by rfl, by rfl, by rfl, by rfl⟩
  have hshown : (op.drag.moveTo (some padsWithTracks) ⟨-2000000, 1000000⟩).toOption.map
      (fun answer => answer.toOption.map fun d => d.displayed.modified.map Item.anchors) =
      some (some [[⟨-2000000, 1000000⟩], [⟨-1000000, 1000000⟩],
        [⟨-2000000, 1000000⟩, ⟨0, 5000000⟩]]) := by
    rw [hdrag]
    decide +kernel
  obtain ⟨answer, hanswer, hshown⟩ := exists_of_toOption_map hshown
  obtain ⟨d, rfl, hdisplayed⟩ := exists_of_toOption_map hshown
  exact ⟨hunique, horderly, t, op, d, hstart, hop, hboard,
    (free_tearsNothing hunique).2 _ _ _ _ _ _ horderly hstart hop hboard, hanswer, hdisplayed⟩

end CopperRoute
