import CopperRoute.Proofs.CommitReports
import CopperRoute.Proofs.DragStarts

/-!
# What a drag moves

A fixed drag moves copper, and does nothing else to the board (`Board.DraggedTo`).  The items
stay in their order under their identifiers, no next identifier is used up, and an item is
afterwards what it was but for its coordinates.  Even these change only if it was grabbed, or if
it is a track that **hangs on** a grabbed item: it has the same net, and an end on an anchor of
that item.

What is fixed was computed long before, from the items as they were when they were grabbed and
from the world that the engine had at some move.  A `DragStart` remembers the board at the
beginning of a drag and what was grabbed.  Until the drag is fixed or broken off, these are the
items of the board (`Tool.execute_remembers`); so the fix finds every item where the drag has
taken it from (`Tool.serve_movesCopper`).
-/

namespace CopperRoute

/-- What of a shape is not its place. -/
def Shape.unplaced : Shape → Shape
  | segment _ width => segment ⟨.zero, .zero⟩ width
  | via _ diameter drill type => via .zero diameter drill type
  | solid _ size => solid .zero size

theorem Shape.MovesTo.unplaced {d : Point} {s s' : Shape} (h : s.MovesTo d s') :
    s'.unplaced = s.unplaced := by
  cases h <;> rfl

namespace Item

/-- What of an item is not its place. -/
def unplaced (i : Item) : Item := { i with shape := i.shape.unplaced }

/-- Items that differ in their coordinates at most have the same identifier. -/
theorem id_eq_of_unplaced {i j : Item} (h : i.unplaced = j.unplaced) : i.id = j.id := by
  show i.unplaced.id = j.unplaced.id
  rw [h]

/-- **A track hangs on an item** of its net when it has an end on an anchor of that item. -/
def HangsOn (i j : Item) : Prop :=
  i.isSegment = true ∧ i.net = j.net ∧ ∃ p ∈ i.anchors, p ∈ j.anchors

/-- **What becomes of an item** when others are dragged: it changes its coordinates at most, and
only if it is one of these or hangs on one. -/
structure DragsTo (grabbed : List Item) (i i' : Item) : Prop where
  unplaced : i'.unplaced = i.unplaced
  moved : i' ≠ i → i ∈ grabbed ∨ ∃ j ∈ grabbed, i.HangsOn j

theorem DragsTo.refl (grabbed : List Item) (i : Item) : i.DragsTo grabbed i :=
  ⟨rfl, fun hother => absurd rfl hother⟩

end Item

namespace Board

/-- A moved anchor belongs to a grabbed item. -/
theorem mem_movedAnchors {grabbed moved : List Item} {a : Point × Point × NetCode}
    (h : a ∈ movedAnchors grabbed moved) : ∃ j ∈ grabbed, a.1 ∈ j.anchors ∧ a.2.2 = j.net := by
  obtain ⟨⟨before, after⟩, hpair, h⟩ := List.mem_flatMap.mp h
  obtain ⟨⟨p, q⟩, hmoved, rfl⟩ := List.mem_map.mp h
  have hanchors := (List.mem_filter.mp hmoved).1
  exact ⟨before, (List.of_mem_zip hpair).1, (List.of_mem_zip hanchors).1, rfl⟩

/-- Only a point with a moved anchor of its net goes somewhere. -/
theorem mem_of_relocate_ne {anchors : List (Point × Point × NetCode)} {net : NetCode} {p : Point}
    (h : relocate anchors net p ≠ p) : ∃ a ∈ anchors, a.1 = p ∧ a.2.2 = net := by
  unfold relocate at h
  split at h
  · next a ha =>
      have hfits := List.find?_some ha
      simp only [Bool.and_eq_true, beq_iff_eq] at hfits
      exact ⟨a, List.mem_of_find?_eq_some ha, hfits⟩
  · exact absurd rfl h

/-- **A stretched track** hangs on a grabbed item. -/
theorem hangsOn_of_stretched {grabbed moved : List Item} {i i' : Item}
    (h : stretched? (movedAnchors grabbed moved) i = some i') : ∃ j ∈ grabbed, i.HangsOn j := by
  unfold stretched? at h
  split at h
  · next axis width hshape =>
      simp only at h
      split at h
      · cases h
      · next hmoved =>
          have hpulled : ∃ p ∈ i.anchors,
              relocate (movedAnchors grabbed moved) i.net p ≠ p := by
            have hanchors : i.anchors = [axis.start, axis.stop] := by
              rw [Item.anchors, hshape]
              rfl
            by_contra hnone
            simp only [hanchors, List.mem_cons, List.not_mem_nil, or_false, not_exists, not_and,
              ne_eq, not_not, forall_eq_or_imp, forall_eq] at hnone
            exact hmoved (by rw [hnone.1, hnone.2])
          obtain ⟨p, hp, hpull⟩ := hpulled
          obtain ⟨a, ha, rfl, hnet⟩ := mem_of_relocate_ne hpull
          obtain ⟨j, hj, hanchor, hsame⟩ := mem_movedAnchors ha
          refine ⟨j, hj, ?_, hnet.symm.trans hsame, a.1, hp, hanchor⟩
          rw [Item.isSegment, hshape]
          rfl
  · cases h

end Board

/-- **A drag follows the board**: it has grabbed items of it, and displays what becomes of items
when these are dragged. -/
structure Drag.Follows (d : Drag) (b : Board) : Prop where
  grabbed : ∀ i ∈ d.grabbed, i ∈ b.items
  displayed : ∀ i' ∈ d.displayed.modified, ∃ i ∈ b.items, i.DragsTo d.grabbed i'

namespace Drag.Follows

variable {d d' : Drag} {b b' : Board}

theorem of_items (h : d.Follows b) (hitems : b'.items = b.items) : d.Follows b' :=
  ⟨hitems ▸ h.grabbed, hitems ▸ h.displayed⟩

/-- A drag that begins displays what it has grabbed. -/
theorem of_grabbed (hgrabbed : ∀ i ∈ d.grabbed, i ∈ b.items)
    (hfresh : d.displayed.modified = d.grabbed) : d.Follows b :=
  ⟨hgrabbed, fun i hi => ⟨i, hgrabbed i (hfresh ▸ hi), .refl _ i⟩⟩

/-- **Moving** a drag, when the engine works on the same items. -/
theorem moveTo {w : World} {p : Point} (hd : d.Follows b)
    (hsame : ∀ b', w = some b' → b'.items = b.items) (h : d.moveTo w p = .ok (.ok d')) :
    d'.Follows b := by
  obtain ⟨hgrabbed, hbefore | ⟨b', delta, moved, hworld, hmoved, hdisplayed⟩⟩ := moveTo_answer h
  · refine ⟨hgrabbed ▸ hd.grabbed, ?_⟩
    rw [hbefore, hgrabbed]
    exact hd.displayed
  · refine ⟨hgrabbed ▸ hd.grabbed, fun i' hi' => ?_⟩
    rw [hdisplayed] at hi'
    rw [hgrabbed]
    rcases List.mem_append.mp hi' with hi' | hi'
    · obtain ⟨i, hi, hii'⟩ := mem_of_mapM hmoved hi'
      obtain ⟨_, shape, hshape, rfl⟩ := constrained_eq_ok hii'
      refine ⟨i, hd.grabbed i hi, ?_, fun _ => .inl hi⟩
      rw [Item.unplaced, hshape.unplaced]
      rfl
    · obtain ⟨i, hi, _, hii'⟩ := Board.mem_followers.mp hi'
      refine ⟨i, hsame b' hworld ▸ hi, ?_, fun _ => .inr (Board.hangsOn_of_stretched hii')⟩
      obtain ⟨_, _, _, hshape, rfl⟩ := Board.stretched?_eq_some hii'
      rw [Item.unplaced, Item.unplaced, hshape]
      rfl

end Drag.Follows

/-- **The board behind a drag** of these items. -/
structure Board.DraggedTo (grabbed : List Item) (b b' : Board) : Prop where
  frame : b' = { b with items := b'.items }
  ids : b'.items.map Item.id = b.items.map Item.id
  items : ∀ i ∈ b.items, ∀ i' ∈ b'.items, i'.id = i.id → i.DragsTo grabbed i'

namespace Board

variable {b b' : Board} {grabbed : List Item}

theorem Numbered.draggedTo_self (hb : b.Numbered) (grabbed : List Item) :
    b.DraggedTo grabbed b := by
  refine ⟨rfl, rfl, fun i hi i' hi' hid => ?_⟩
  rw [List.inj_on_of_nodup_map hb.unique hi' hi hid]
  exact .refl grabbed i

/-- A commit that modifies items and does nothing else leaves the rest of the board. -/
theorem commit_frame {c : Changeset} {report : CommitReport} (hadded : c.added = [])
    (hremoved : c.removed = []) (h : b.commit c = .ok (.applied b' report)) :
    b' = { b with items := b'.items } := by
  have hsheet := commit_sameSheet h
  have hnext : b'.nextId = b.nextId := by
    obtain ⟨_, hadd⟩ := commit_eq_applied h
    rw [hadded, hremoved] at hadd
    rw [← (Prod.mk.inj (Except.ok.inj hadd)).1]
    exact nextId_replaceAll b c.modified
  rw [SameSheet, hnext] at hsheet
  exact hsheet

/-- **A commit of dragged items** drags them on the board. -/
theorem Numbered.commit_draggedTo {c : Changeset} {report : CommitReport} (hb : b.Numbered)
    (hadded : c.added = []) (hremoved : c.removed = [])
    (hdragged : ∀ i' ∈ c.modified, ∃ i ∈ b.items, i.DragsTo grabbed i')
    (h : b.commit c = .ok (.applied b' report)) : b.DraggedTo grabbed b' := by
  have hextends := hb.commit_extends hremoved h
  have hitems := hextends.items
  rw [hadded, numberFrom_nil, List.append_nil] at hitems
  refine ⟨commit_frame hadded hremoved h, hitems ▸ hextends.ids, fun i hi i' hi' hid => ?_⟩
  rw [hitems] at hi'
  rcases Keyed.mem_of_mem_foldl_put hi' with hmodified | hkept
  · -- it comes from the item that has its identifier
    obtain ⟨j, hj, hdrags⟩ := hdragged i' hmodified
    have hsame := (Item.id_eq_of_unplaced hdrags.unplaced).symm.trans hid
    rw [← List.inj_on_of_nodup_map hb.unique hj hi hsame]
    exact hdrags
  · exact (hb.draggedTo_self grabbed).items i hi i' hkept hid

end Board

namespace Tool

variable {t u t' : Tool} {c : Command} {s : DragStart} {refusal : Option CommandRefusal}

/-- The running drag follows the board. -/
def DragsFollow (t : Tool) : Prop := ∀ op, t.session.drag? = some op → op.drag.Follows t.board

/-- **A drag is astray** when the engine works on a board with other items. -/
def DragsAstray (t : Tool) : Prop :=
  ∃ op b, t.session.drag? = some op ∧ t.world = some b ∧ b.items ≠ t.board.items

/-- **Every command** leaves a drag that follows the board, unless one is astray. -/
theorem execute_dragsFollow (ht : t.Orderly) (hgood : ¬ t.DragsAstray) (hfollows : t.DragsFollow)
    (h : t.execute c = .ok (t', refusal)) : t'.DragsFollow := by
  intro op' hop'
  cases (execute_changes ht h).drags op' hop' with
  | began hgrabbed hfresh => exact .of_grabbed hgrabbed hfresh
  | kept hop hsame =>
      rw [hsame]
      exact (hfollows _ hop).of_items (items_of_dragging ht hop hop' h)
  | @moved op _ hop hmove =>
      have hworld : ∀ b, t.world = some b → b.items = t.board.items := by
        intro b hb
        by_contra hother
        exact hgood ⟨op, b, hop, hb, hother⟩
      exact ((hfollows _ hop).moveTo hworld hmove).of_items (items_of_dragging ht hop hop' h)

/-- No drag is astray when the engine knows no other board at first. -/
theorem serving_notAstray (ht : t.Orderly) (hinformed : t.Informed) (os : List Occasion) :
    t.Serving (Avoids fun t _ => t.DragsAstray) os := by
  refine serving_avoids_of_informed (fun t _ hinformed => ?_) (fun t _ hnone => ?_) ht hinformed os
  · rintro ⟨op, b, _, hworld, hother⟩
    exact hother (congrArg Board.items (hinformed.known b hworld))
  · rintro ⟨op, b, hop, _⟩
    cases (Session.drag?_of_none hnone).symm.trans hop

/-- **A fixed drag** drags what it has grabbed, or leaves the board as it is. -/
theorem fixDrag_draggedTo (hb : t.board.Numbered) (hfollows : t.DragsFollow)
    (hs : t.Remembers s) (h : t.fixDrag = .ok t') : t.board.DraggedTo s.grabbed t'.board := by
  cases fixDrag_eq_ok h with
  | idle _ hsame =>
      rw [hsame]
      exact hb.draggedTo_self _
  | void _ _ hended =>
      rw [hended]
      exact hb.draggedTo_self _
  | refused _ _ hcommit hresumed =>
      rw [hresumed, (commit_refused hcommit).1]
      exact hb.draggedTo_self _
  | committed hop hsome hcommit hended =>
      rw [hended, ← (hs _ hop).1]
      cases commit_lands hcommit with
      | void hempty => cases hsome.symm.trans hempty
      | landed happlied =>
          refine hb.commit_draggedTo rfl rfl (fun i' hi' => ?_) happlied
          exact (hfollows _ hop).displayed i' (List.mem_filter.mp hi').1

/-- Nothing is staged while a drag runs. -/
theorem stagedChanges?_of_dragging {op : DragOp} (hop : t.session.drag? = some op) :
    t.stagedChanges? = none := by
  rw [stagedChanges?, Session.route?_of_drag hop]
  rfl

/-- Making room leaves the board when nothing is staged. -/
theorem makeIdle_board (hnone : t.stagedChanges? = none) (h : t.makeIdle = .ok u) :
    u.board = t.board := by
  unfold makeIdle at h
  split at h
  · cases h
    rfl
  · simp only [stopOperation, commitStaged, hnone] at h
    cases h
    rfl

/-- **A drag that is broken off** leaves the board as it is. -/
theorem execute_breaksOff {op : DragOp} (ht : t.Orderly) (hop : t.session.drag? = some op)
    (hc : c.Interrupts) (h : t.execute c = .ok (t', refusal)) : t'.board = t.board := by
  have hnone := stagedChanges?_of_dragging hop
  have hbegins {u : Tool} (h : t.Begins u t') : t'.board = t.board :=
    h.same.board.trans (makeIdle_board hnone h.idle)
  cases hc with
  | startRouting =>
      obtain ⟨u, hu⟩ := startRouting_begins ht (Checked.of_tagged h)
      exact hbegins hu
  | startDrag =>
      obtain ⟨u, hu⟩ := startDrag_begins ht (Checked.of_tagged h)
      exact hbegins hu
  | startFootprintDrag =>
      obtain ⟨u, hu⟩ := startFootprintDrag_begins ht (Checked.of_tagged h)
      exact hbegins hu
  | cancelOperation =>
      obtain ⟨u, hcancel, hsame, _⟩ := cancelOperation_of_none ht hnone
      cases hcancel.symm.trans (Checked.of_tagged h)
      exact hsame.board

/-- **How a turn moves copper.**  While a drag runs, it holds what was grabbed at its beginning on
the board of that time, and that board has only got other design settings since.  A fix drags
these items on the board, and what breaks the drag off leaves the board as it is. -/
structure MovesCopper (s : DragStart) (t : Tool) (c : Command) (t' : Tool) : Prop where
  held : ∀ op, t.session.drag? = some op → op.drag.grabbed = s.grabbed ∧
    (∀ i ∈ s.grabbed, i ∈ s.board.items) ∧ t.board = { s.board with design := t.board.design }
  fixed : c = .fixDrag → t.board.DraggedTo s.grabbed t'.board
  brokenOff : t.session.isDragging = true → c.Interrupts → t'.board = t.board

theorem execute_movesCopper (ht : t.Orderly) (hb : t.board.Numbered)
    (hfollows : t.DragsFollow) (hs : t.Remembers s)
    (h : t.execute c = .ok (t', refusal)) : t.MovesCopper s c t' := by
  refine ⟨fun op hop => ?_, fun hc => ?_, fun hdragging hc => ?_⟩
  · obtain ⟨hgrabbed, hboard⟩ := hs op hop
    have hthere := (hfollows op hop).grabbed
    rw [hgrabbed, hboard] at hthere
    exact ⟨hgrabbed, hthere, hboard⟩
  · subst hc
    exact fixDrag_draggedTo hb hfollows hs (Checked.of_tagged h)
  · obtain ⟨op, hop⟩ := Option.isSome_iff_exists.mp hdragging
    exact execute_breaksOff ht hop hc h

/-- **Copper moves** in a service only as drags may move it, as long as no drag is astray.  None is
when the engine has no board at first, or the same as the tool. -/
theorem serve_movesCopper {board : Board} (hboard : board.Numbered) (world : World)
    (options : Options) (rules : RuleSet) (search : TreeSearch) (confirms : Bool)
    (os : List Occasion) :
    ((new board world options rules search confirms).Serving (Avoids fun t _ => t.DragsAstray) os →
        (new board world options rules search confirms).ServingSince MovesCopper ⟨board, []⟩ os) ∧
      ((∀ b, world = some b → b = board) →
        (new board world options rules search confirms).ServingSince MovesCopper
          ⟨board, []⟩ os) := by
  have hnew := wellNumbered_new hboard world options rules search confirms
  have hmoves (havoids : (new board world options rules search confirms).Serving
      (Avoids fun t _ => t.DragsAstray) os) :
      (new board world options rules search confirms).ServingSince MovesCopper ⟨board, []⟩ os := by
    refine servingSince_of_avoids (J := fun t => t.WellNumbered ∧ t.DragsFollow)
      (fun _ ht => ht.1.orderly) (fun t o ht => ⟨ht.1.prompted o, ht.2⟩)
      (fun t k t' ht hgood hturn => ?_) (fun s t k t' ht hs hgood hturn => ?_)
      ⟨hnew, fun op hop => by cases hop⟩ (fun op hop => by cases hop) havoids
    · obtain ⟨refusal, hexecute⟩ := turn_eq_ok.mp hturn
      exact ⟨turn_wellNumbered ht.1 hturn,
        execute_dragsFollow (ht.1.orderly.ready k) hgood ht.2 hexecute⟩
    · obtain ⟨refusal, hexecute⟩ := turn_eq_ok.mp hturn
      have hnumbered : (t.ready k).board.Numbered := ht.1.board
      exact execute_movesCopper (ht.1.orderly.ready k) hnumbered ht.2 hs hexecute
  refine ⟨hmoves, fun hknown => hmoves ?_⟩
  exact serving_notAstray hnew.orderly ⟨hknown, fun op hop => by cases hop⟩ os

/-- A board with a pad at the end of a track, and another pad on the other side. -/
def padsAndTrack : Board :=
  { Board.standard with
    items := [⟨1, .solid ⟨1000000, 0⟩ 100000, 1, LayerRange.single ⟨0⟩, false, none⟩,
      ⟨2, .segment ⟨⟨0, 0⟩, ⟨1000000, 0⟩⟩ 250000, 1, LayerRange.single ⟨0⟩, false, none⟩,
      ⟨3, .solid ⟨5000000, 0⟩ 100000, 1, LayerRange.single ⟨1⟩, false, none⟩]
    nextId := 4 }

/-- The first pad is dragged while the track width changes, and then the other one in vain. -/
def dragPads : List Occasion :=
  [⟨.dragSelection [1] ⟨1000000, 0⟩ true, false, false⟩,
    ⟨.motion ⟨500000, 0⟩ false, false, false⟩, ⟨.setCustomTrackWidth 300000, false, false⟩,
    ⟨.motion ⟨1000000, 500000⟩ false, false, false⟩,
    ⟨.click ⟨1000000, 500000⟩ false false, false, false⟩,
    ⟨.dragSelection [3] ⟨5000000, 0⟩ true, false, false⟩,
    ⟨.motion ⟨6000000, 0⟩ false, false, false⟩, ⟨.cancel, false, false⟩]

/-- The track follows the first pad, and the other one stays. -/
theorem serve_movesCopper_stretched :
    padsAndTrack.Numbered ∧ (∀ b, (some padsAndTrack : World) = some b → b = padsAndTrack) ∧
      (launch padsAndTrack Options.standard [] false).ServingSince MovesCopper
        ⟨padsAndTrack, []⟩ dragPads ∧
      ∃ t, (launch padsAndTrack Options.standard [] false).serve dragPads = .ok t ∧
        t.board.items.map Item.anchors =
          [[⟨1000000, 500000⟩], [⟨0, 0⟩, ⟨1000000, 500000⟩], [⟨5000000, 0⟩]] := by
  have hboard : padsAndTrack.Numbered :=
    Board.numbered_ofFile (f := { BoardFile.standard with items := padsAndTrack.items }) rfl
  have hknown : ∀ b, (some padsAndTrack : World) = some b → b = padsAndTrack :=
    fun b hb => (Option.some.inj hb).symm
  have hmoves : (launch padsAndTrack Options.standard [] false).ServingSince MovesCopper
      ⟨padsAndTrack, []⟩ dragPads :=
    (serve_movesCopper hboard (some padsAndTrack) Options.standard _ _ false dragPads).2 hknown
  exact ⟨hboard, hknown, hmoves, _, by rfl, by rfl⟩

end Tool

end CopperRoute
