import CopperRoute.Proofs.BoardChanges
import CopperRoute.Proofs.Intents
import Mathlib.Data.List.Nodup

/-!
# Sound copper

Copper is **sound** when it could be added to the board: its layers exist, a track has a
width and a length, a via is wider than its drill (`Item.SoundOn`).  A commit checks what
it adds, but not what it modifies.

* The halves of a broken track are sound, because it is not broken at its ends.
* A dragged item is sound where it is moved to: moving does not bring two points together
  (`Point.moveBy_injective`).
* A track that follows a dragged item is stretched between where its ends go.  These can
  be the same point.  Then the track has **collapsed** (`Item.Collapsed`), and nothing else
  can be wrong with it.

So the copper on the board stays sound exactly as long as no drag is fixed while it
displays a collapsed track (`serve_soundCopper_iff`).
-/

namespace CopperRoute

theorem int32_injective {v w : Int} {a : Int32} (hv : int32 v = .ok a) (hw : int32 w = .ok a) :
    v = w :=
  (toInt_of_int32 hv).symm.trans (toInt_of_int32 hw)

/-- Points moved by the same displacement to one place were one before. -/
theorem Point.moveBy_injective {p q d r : Point} (hp : p.moveBy d = .ok r)
    (hq : q.moveBy d = .ok r) : p = q := by
  obtain ⟨x, hx, hp⟩ := Checked.bind_eq_ok.mp hp
  obtain ⟨y, hy, hp⟩ := Checked.bind_eq_ok.mp hp
  cases hp
  obtain ⟨x', hx', hq⟩ := Checked.bind_eq_ok.mp hq
  obtain ⟨y', hy', hq⟩ := Checked.bind_eq_ok.mp hq
  cases hq
  have hxs := int32_injective hx hx'
  have hys := int32_injective hy hy'
  exact Point.ext_toInt (by omega) (by omega)

/-- **Sound copper** could be added to the board. -/
def Item.SoundOn (i : Item) (b : Board) : Prop := b.draftRejection? i.draft = none

instance (i : Item) (b : Board) : Decidable (i.SoundOn b) :=
  inferInstanceAs (Decidable (_ = _))

/-- **A collapsed track** leads from a point to the same point. -/
def Item.Collapsed (i : Item) : Prop := ∃ p width, i.shape = .segment ⟨p, p⟩ width

theorem Item.soundOn_iff {i : Item} {b : Board} :
    i.SoundOn b ↔ b.layerFault? i.layers = none ∧ i.shape.fault? = none := by
  rw [SoundOn, Board.draftRejection?, Option.or_eq_none_iff]
  rfl

theorem Board.SameFrame.soundOn {b b' : Board} (h : b.SameFrame b') (i : Item) :
    i.SoundOn b' ↔ i.SoundOn b := by
  rw [Item.SoundOn, h.draftRejection?, Item.SoundOn]

/-- A track is sound as such when it has a width and a length. -/
theorem Shape.fault?_segment {axis : Segment} {width : UInt32} :
    (Shape.segment axis width).fault? = none ↔ width ≠ 0 ∧ axis.start ≠ axis.stop := by
  unfold fault?
  by_cases hwidth : width = 0
  · simp [hwidth]
  · by_cases hlength : axis.start = axis.stop
    · simp [hwidth, hlength]
    · simp [hwidth, hlength]

namespace Item

/-- A collapsed track is not sound. -/
theorem Collapsed.not_soundOn {i : Item} (h : i.Collapsed) (b : Board) : ¬ i.SoundOn b := by
  obtain ⟨p, width, hshape⟩ := h
  rw [soundOn_iff, hshape, Shape.fault?_segment]
  exact fun hsound => hsound.2.2 rfl

/-- A track stays sound when it gets other ends, unless these are one point. -/
theorem SoundOn.reshaped {i : Item} {b : Board} {axis axis' : Segment} {width : UInt32}
    (h : i.SoundOn b) (hshape : i.shape = .segment axis width)
    (hlength : axis'.start ≠ axis'.stop) :
    ({ i with shape := .segment axis' width } : Item).SoundOn b := by
  rw [soundOn_iff, hshape, Shape.fault?_segment] at h
  exact soundOn_iff.mpr ⟨h.1, Shape.fault?_segment.mpr ⟨h.2.1, hlength⟩⟩

/-- A sound item is sound where it is moved to. -/
theorem SoundOn.moved {i : Item} {b : Board} {d : Point} {shape : Shape} (h : i.SoundOn b)
    (hmoves : i.shape.MovesTo d shape) : ({ i with shape := shape } : Item).SoundOn b := by
  generalize hold : i.shape = old at hmoves
  cases hmoves with
  | @segment axis axis' width hstart hstop =>
      refine h.reshaped hold fun hsame => ?_
      rw [soundOn_iff, hold, Shape.fault?_segment] at h
      rw [hsame] at hstart
      exact h.2.2 (Point.moveBy_injective hstart hstop)
  | via | solid =>
      rw [soundOn_iff, hold] at h
      exact soundOn_iff.mpr h

/-- A sound track that is stretched is sound, or has collapsed. -/
theorem SoundOn.stretched {i j : Item} {b : Board} {anchors : List (Point × Point × NetCode)}
    (h : j.SoundOn b) (hstretched : Board.stretched? anchors j = some i) :
    i.SoundOn b ∨ i.Collapsed := by
  obtain ⟨axis, axis', width, hshape, rfl⟩ := Board.stretched?_eq_some hstretched
  by_cases hlength : axis'.start = axis'.stop
  · refine .inr ⟨axis'.start, width, ?_⟩
    cases axis'
    cases hlength
    rfl
  · exact .inl (h.reshaped hshape hlength)

end Item

/-- **A board in good order**: with the frame of the first one, no identifier twice, and
sound copper only. -/
structure Board.InOrder (b first : Board) : Prop where
  frame : first.SameFrame b
  unique : (b.items.map Item.id).Nodup
  sound : ∀ i ∈ b.items, i.SoundOn first

/-- Items of such a board are known by their identifiers. -/
theorem Board.InOrder.eq_of_id {b first : Board} (h : b.InOrder first) {i j : Item}
    (hi : i ∈ b.items) (hj : j ∈ b.items) (hid : i.id = j.id) : i = j :=
  List.inj_on_of_nodup_map h.unique hi hj hid

/-- **A drag in good order**: what it has grabbed is sound, what it displays is sound or has
collapsed, and neither has two items with one identifier. -/
structure Drag.InOrder (d : Drag) (first : Board) : Prop where
  sound : ∀ i ∈ d.grabbed, i.SoundOn first
  unique : ∀ i ∈ d.grabbed, ∀ j ∈ d.grabbed, i.id = j.id → i = j
  displayed : ∀ i ∈ d.displayed.modified, i.SoundOn first ∨ i.Collapsed
  distinct : ∀ i ∈ d.displayed.modified, ∀ j ∈ d.displayed.modified, i.id = j.id → i = j

/-- What is grabbed on a board in good order. -/
theorem Drag.InOrder.of_grabbed {d : Drag} {b first : Board} (hb : b.InOrder first)
    (hgrabbed : ∀ i ∈ d.grabbed, i ∈ b.items) (hfresh : d.displayed.modified = d.grabbed) :
    d.InOrder first := by
  have hsound (i : Item) (hi : i ∈ d.grabbed) : i.SoundOn first := hb.sound i (hgrabbed i hi)
  have hunique (i : Item) (hi : i ∈ d.grabbed) (j : Item) (hj : j ∈ d.grabbed)
      (hid : i.id = j.id) : i = j :=
    hb.eq_of_id (hgrabbed i hi) (hgrabbed j hj) hid
  exact ⟨hsound, hunique, hfresh ▸ fun i hi => .inl (hsound i hi), hfresh ▸ hunique⟩

namespace Drag.Displays

variable {d : Drag} {w : World} {first : Board} {delta : Point}
  {anchors : List (Point × Point × NetCode)} {i j : Item}

theorem sound_or_collapsed (h : d.Displays w delta anchors i) (hd : d.InOrder first)
    (hworld : ∀ b, w = some b → b.InOrder first) : i.SoundOn first ∨ i.Collapsed := by
  cases h with
  | moved hgrabbed hmoved =>
      obtain ⟨shift, shape, hmoves, rfl⟩ := Drag.constrained_eq_ok hmoved
      exact .inl ((hd.sound _ hgrabbed).moved hmoves)
  | stretched hw hitem _ hstretched => exact ((hworld _ hw).sound _ hitem).stretched hstretched

/-- No identifier is displayed with two items. -/
theorem eq_of_id (hi : d.Displays w delta anchors i) (hj : d.Displays w delta anchors j)
    (hd : d.InOrder first) (hworld : ∀ b, w = some b → b.InOrder first) (hid : i.id = j.id) :
    i = j := by
  cases hi with
  | @moved i₀ hi₀ hmoved =>
      have hid₀ := Drag.id_eq_of_constrained hmoved
      cases hj with
      | @moved j₀ hj₀ hmoved' =>
          have hsame : i₀ = j₀ :=
            hd.unique i₀ hi₀ j₀ hj₀ (by rw [← hid₀, hid, Drag.id_eq_of_constrained hmoved'])
          rw [hsame, hmoved'] at hmoved
          exact (Except.ok.inj hmoved).symm
      | @stretched b j₀ _ _ hfree hstretched =>
          have hthere : i₀.id ∈ d.grabbed.map Item.id := List.mem_map_of_mem hi₀
          rw [← hid₀, hid, Board.id_eq_of_stretched hstretched] at hthere
          exact absurd hthere hfree
  | @stretched b i₀ hw hi₀ hfree hstretched =>
      have hid₀ := Board.id_eq_of_stretched hstretched
      cases hj with
      | @moved j₀ hj₀ hmoved' =>
          have hthere : j₀.id ∈ d.grabbed.map Item.id := List.mem_map_of_mem hj₀
          rw [← Drag.id_eq_of_constrained hmoved', ← hid, hid₀] at hthere
          exact absurd hthere hfree
      | @stretched b' j₀ hw' hj₀ _ hstretched' =>
          cases hw.symm.trans hw'
          have hsame : i₀ = j₀ :=
            (hworld b hw).eq_of_id hi₀ hj₀
              (by rw [← hid₀, hid, Board.id_eq_of_stretched hstretched'])
          rw [hsame, hstretched'] at hstretched
          exact (Option.some.inj hstretched).symm

end Drag.Displays

/-- A move keeps a drag in good order. -/
theorem Drag.InOrder.moveTo {d d' : Drag} {w : World} {first : Board} {p : Point}
    (hd : d.InOrder first) (hworld : ∀ b, w = some b → b.InOrder first)
    (h : d.moveTo w p = .ok (.ok d')) : d'.InOrder first := by
  obtain ⟨hgrabbed, hdisplayed⟩ := Drag.moveTo_eq_ok h
  rcases hdisplayed with hsame | ⟨delta, anchors, hall⟩
  · exact ⟨hgrabbed ▸ hd.sound, hgrabbed ▸ hd.unique, hsame ▸ hd.displayed, hsame ▸ hd.distinct⟩
  · refine ⟨hgrabbed ▸ hd.sound, hgrabbed ▸ hd.unique, fun i hi => ?_, fun i hi j hj hid => ?_⟩
    · exact (hall i hi).sound_or_collapsed hd hworld
    · exact (hall i hi).eq_of_id (hall j hj) hd hworld hid

namespace Tool

/-- **All copper on the board is sound.** -/
def SoundCopper (t : Tool) : Prop := ∀ i ∈ t.board.items, i.SoundOn t.board

/-- **Collapsing.**  A drag that displays a collapsed track is fixed, and the board accepts
it. -/
inductive Collapses (t : Tool) : Command → Prop
  | fix {op : DragOp} {i : Item} (hop : t.session.drag? = some op)
      (hi : i ∈ op.drag.displayed.modified) (hcollapsed : i.Collapsed)
      (haccepted : t.board.rejection? (op.drag.changeset op.allowLocked) = none) :
      Collapses t .fixDrag

/-- **The invariant.**  All boards are in good order, also that of the engine, and so is a
drag. -/
structure KeepsSound (first : Board) (t : Tool) : Prop where
  orderly : t.Orderly
  boards : ∀ b ∈ t.boards, b.InOrder first
  world : ∀ b, t.world = some b → b.InOrder first
  drag : ∀ op, t.session.drag? = some op → op.drag.InOrder first

theorem KeepsSound.board {first : Board} {t : Tool} (ht : t.KeepsSound first) :
    t.board.InOrder first :=
  ht.boards _ t.board_mem_boards

theorem KeepsSound.ready {first : Board} {t : Tool} (ht : t.KeepsSound first) (k : Turn) :
    (t.ready k).KeepsSound first :=
  ⟨ht.orderly.ready k, ht.boards, ht.world, ht.drag⟩

/-- **What a command commits is sound**, unless it is a drag with a collapsed track. -/
theorem KeepsSound.sound_of_brings {first : Board} {t : Tool} {c : Command} {changes : Changeset}
    {i : Item} (ht : t.KeepsSound first) (hgood : ¬ t.Collapses c)
    (hcommits : t.Commits c changes) (haccepted : t.board.rejection? changes = none)
    (hi : t.board.Brings changes i) : i.SoundOn first := by
  rcases hi with hi | ⟨d, _, hchecked, id, rfl⟩
  · cases hcommits with
    | staged | finished => cases hi
    | dragged hop =>
        have hshown := (List.mem_filter.mp hi).1
        rcases (ht.drag _ hop).displayed i hshown with hsound | hcollapsed
        · exact hsound
        · exact absurd (.fix hop hshown hcollapsed haccepted) hgood
    | broken hsplit =>
        obtain ⟨whole, hwhole, axis, width, middle, hshape, hstart, _, rfl⟩ :=
          Board.splitSegment_segments hsplit
        rw [List.mem_singleton.mp hi]
        exact (ht.board.sound whole hwhole).reshaped hshape hstart.symm
  · exact (ht.board.frame.soundOn (d.withId id)).mp hchecked

/-- **A turn that does not collapse a track** keeps everything in good order. -/
theorem turn_keepsSound {first : Board} {t t' : Tool} {k : Turn} (ht : t.KeepsSound first)
    (hgood : ¬ (t.ready k).Collapses k.command) (h : t.turn k = .ok t') : t'.KeepsSound first := by
  have horderly := (turn_advances ht.orderly h).orderly
  replace ht := ht.ready k
  obtain ⟨refusal, h⟩ := turn_eq_ok.mp h
  have hchanges := execute_changes ht.orderly h
  have hboards : ∀ b ∈ t'.boards, b.InOrder first := by
    refine hchanges.boards.forall_boards ht.boards (fun hsame hframe => ?_)
      fun changes report hcommits hcommit => ?_
    · exact ⟨ht.board.frame.trans hframe, hsame ▸ ht.board.unique, hsame ▸ ht.board.sound⟩
    · have htakes := Board.commit_takes hcommit
      have haccepted := (Board.commit_eq_applied hcommit).1
      refine ⟨ht.board.frame.trans htakes.frame, htakes.unique ht.board.unique, fun i hi => ?_⟩
      rcases htakes.items i hi with hold | hnew
      · exact ht.board.sound i hold
      · exact ht.sound_of_brings hgood hcommits haccepted hnew
  have hboard := hboards _ t'.board_mem_boards
  refine ⟨horderly, hboards, fun b hb => ?_, fun op' hop' => ?_⟩
  · rcases hchanges.boards.world with hsame | hnone | hloaded
    · exact ht.world b (hsame ▸ hb)
    · cases hnone.symm.trans hb
    · cases hloaded.symm.trans hb
      exact hboard
  · cases hchanges.drags op' hop' with
    | began hgrabbed hfresh => exact .of_grabbed hboard hgrabbed hfresh
    | kept hop hsame =>
        rw [hsame]
        exact ht.drag _ hop
    | moved hop hmove => exact (ht.drag _ hop).moveTo ht.world hmove

/-- **A turn that collapses a track** puts it on the board. -/
theorem KeepsSound.not_collapses {first : Board} {t t' : Tool} {k : Turn}
    (ht : t.KeepsSound first) (h : t.turn k = .ok t') (hsound : t'.SoundCopper) :
    ¬ (t.ready k).Collapses k.command := by
  intro hbad
  replace ht := ht.ready k
  obtain ⟨refusal, h⟩ := turn_eq_ok.mp h
  generalize k.command = c at h hbad
  cases hbad with
  | @fix op i hop hi hcollapsed haccepted =>
      have hd := ht.drag op hop
      -- a collapsed track is not what was grabbed, so the drag has changed it
      have hchanged : i ∈ (op.drag.changeset op.allowLocked).modified := by
        refine List.mem_filter.mpr ⟨hi, ?_⟩
        have hnew : i ∉ op.drag.grabbed := fun hold =>
          hcollapsed.not_soundOn first (hd.sound i hold)
        simpa using hnew
      have hsome : (op.drag.changeset op.allowLocked).isEmpty = false := by
        have hmodified : (op.drag.changeset op.allowLocked).modified.isEmpty = false :=
          List.isEmpty_eq_false_iff.mpr (List.ne_nil_of_mem hchanged)
        rw [Changeset.isEmpty, hmodified]
        simp
      obtain ⟨report, hcommit⟩ := fixDrag_commits hop haccepted hsome (Checked.of_tagged h)
      have hthere : i ∈ t'.board.items := by
        refine Board.commit_mem_of_modified hcommit rfl rfl hchanged fun j hj hid => ?_
        exact hd.distinct j (List.mem_filter.mp hj).1 i hi hid
      exact hcollapsed.not_soundOn _ (hsound i hthere)

/-- **Copper stays sound** throughout a service exactly when no drag is fixed while it
displays a collapsed track.  Routes and broken tracks do no harm. -/
theorem serve_soundCopper_iff (board : Board) (world : World) (options : Options)
    (rules : RuleSet) (search : TreeSearch) (confirms : Bool) (os : List Occasion)
    (hworld : world = none ∨ world = some board) (hunique : (board.items.map Item.id).Nodup)
    (hsound : ∀ i ∈ board.items, i.SoundOn board) :
    (new board world options rules search confirms).Serving (Always SoundCopper) os ↔
      (new board world options rules search confirms).Serving (Avoids Collapses) os := by
  have hboard : board.InOrder board := ⟨Board.SameFrame.refl board, hunique, hsound⟩
  have hstart : (new board world options rules search confirms).KeepsSound board := by
    refine ⟨orderly_new board world options rules search confirms, fun b hb => ?_, fun b hb => ?_,
      fun op hop => ?_⟩
    · rw [List.mem_singleton.mp hb]
      exact hboard
    · have hb' : world = some b := hb
      rcases hworld with hnone | hsome
      · cases hnone.symm.trans hb'
      · cases hsome.symm.trans hb'
        exact hboard
    · cases hop
  refine serving_always_iff_avoids (J := KeepsSound board) (fun t o ht => ?_)
    (fun _ _ _ => turn_keepsSound) (fun t ht i hi => ?_)
    (fun _ _ _ ht => ht.not_collapses) hstart
  · exact ⟨ht.orderly.prompted o, ht.boards, ht.world, ht.drag⟩
  · exact (ht.board.frame.soundOn i).mpr (ht.board.sound i hi)

/-- A board with a pad at the end of a track. -/
def padOnTrack : Board :=
  { Board.standard with
    items := [⟨1, .solid ⟨1000000, 0⟩ 100000, 1, LayerRange.single ⟨0⟩, false, none⟩,
      ⟨2, .segment ⟨⟨0, 0⟩, ⟨1000000, 0⟩⟩ 250000, 1, LayerRange.single ⟨0⟩, false, none⟩]
    nextId := 3 }

/-- The pad is dragged to a point. -/
def dragPad (p : Point) : List Occasion :=
  [⟨.dragSelection [1] ⟨1000000, 0⟩ true, true, false⟩, ⟨.motion p false, true, false⟩,
    ⟨.click p false false, true, false⟩]

/-- When the pad is dragged half way along its track, the track becomes shorter and stays
sound. -/
theorem serve_soundCopper_shortened :
    (padOnTrack.items.map Item.id).Nodup ∧ (∀ i ∈ padOnTrack.items, i.SoundOn padOnTrack) ∧
      (launch padOnTrack Options.standard [] true).Serving (Avoids Collapses)
        (dragPad ⟨500000, 0⟩) ∧
      (launch padOnTrack Options.standard [] true).Serving (Always SoundCopper)
        (dragPad ⟨500000, 0⟩) ∧
      ∃ t, (launch padOnTrack Options.standard [] true).serve (dragPad ⟨500000, 0⟩) = .ok t ∧
        t.SoundCopper ∧
        t.board.items.map Item.shape =
          [.solid ⟨500000, 0⟩ 100000, .segment ⟨⟨0, 0⟩, ⟨500000, 0⟩⟩ 250000] := by
  have hunique : (padOnTrack.items.map Item.id).Nodup := by decide
  have hsound : ∀ i ∈ padOnTrack.items, i.SoundOn padOnTrack := by decide
  have havoids : (launch padOnTrack Options.standard [] true).Serving
      (Avoids Collapses) (dragPad ⟨500000, 0⟩) := by
    refine serving_avoids_cons (c := .startDrag [1] ⟨1000000, 0⟩ anyFreeAngle) (by rfl) nofun ?_
    refine serving_avoids_cons (c := .moveDrag ⟨500000, 0⟩) (by rfl) nofun ?_
    refine serving_avoids_cons (c := .fixDrag) (by rfl) ?_ trivial
    rintro (@⟨op, i, hop, hi, ⟨p, width, hshape⟩, _⟩)
    have hshown : op.drag.displayed.modified.map Item.shape =
        [.solid ⟨500000, 0⟩ 100000, .segment ⟨⟨0, 0⟩, ⟨500000, 0⟩⟩ 250000] := by
      cases hop
      rfl
    have hthere : i.shape ∈ op.drag.displayed.modified.map Item.shape := List.mem_map_of_mem hi
    rw [hshown, hshape] at hthere
    rcases List.mem_pair.mp hthere with hsolid | hsegment
    · cases hsolid
    · injection hsegment with haxis
      injection haxis with hstart hstop
      exact absurd (hstart.symm.trans hstop) (by decide)
  have halways := (serve_soundCopper_iff padOnTrack (some padOnTrack) Options.standard _ _ true
    (dragPad ⟨500000, 0⟩) (.inr rfl) hunique hsound).mpr havoids
  obtain ⟨t, hserve, hshapes⟩ :
      ∃ t, (launch padOnTrack Options.standard [] true).serve (dragPad ⟨500000, 0⟩) = .ok t ∧
        t.board.items.map Item.shape =
          [.solid ⟨500000, 0⟩ 100000, .segment ⟨⟨0, 0⟩, ⟨500000, 0⟩⟩ 250000] :=
    ⟨_, by rfl, by rfl⟩
  exact ⟨hunique, hsound, havoids, halways, t, hserve, halways.last hserve, hshapes⟩

/-- When the pad is dragged to the other end, the track collapses and is on the board. -/
theorem serve_not_soundCopper :
    ¬ (launch padOnTrack Options.standard [] true).Serving (Always SoundCopper)
      (dragPad ⟨0, 0⟩) := by
  intro halways
  obtain ⟨t, i, hserve, hi, hshape⟩ :
      ∃ t i, (launch padOnTrack Options.standard [] true).serve (dragPad ⟨0, 0⟩) = .ok t ∧
        i ∈ t.board.items ∧
        i.shape = .segment ⟨⟨0, 0⟩, ⟨0, 0⟩⟩ 250000 :=
    ⟨_, _, by rfl, List.mem_cons_of_mem _ List.mem_cons_self, by rfl⟩
  have hsound := halways.last hserve i hi
  exact Item.Collapsed.not_soundOn ⟨_, _, hshape⟩ t.board hsound

end Tool

end CopperRoute
