import CopperRoute.Proofs.Intents
import CopperRoute.Proofs.Numbering
import Mathlib.Data.List.Nodup

/-!
# Locked copper

A locked item changes only when that is allowed: by the options, or by the host when it is
asked.  Where both say no, every changeset comes without the permission to touch locked
items, and the board refuses all of it when it touches one.

So the items that are locked on the first board are on every board later on, exactly as
they were; the boards that undo and redo give back are no exception.  And no other item
becomes locked, as long as the engine's first world has no other locked items: new copper
is not locked, and what a drag or a break changes keeps its lock.

Drags are where this needs an argument.  The engine stretches the tracks of its own world
after a dragged item, locked ones too, and `Drag.displayed` holds them; they have the lock of
the first board, so the board refuses the drag when it is fixed.
-/

namespace CopperRoute

namespace Board

/-- Items of a numbered board are found by their identifiers. -/
theorem Numbered.item?_eq_some {b : Board} (hb : b.Numbered) {i : Item} (hi : i ∈ b.items) :
    b.item? i.id = some i :=
  Keyed.find?_of_mem hb.unique hi

/-- An item that is not removed stays. -/
theorem mem_removeAll {b : Board} {ids : List ItemId} {i : Item} (hi : i ∈ b.items)
    (hother : i.id ∉ ids) : i ∈ (b.removeAll ids).1.items := by
  refine List.foldlRecOn (motive := fun s : Board × Nat => i ∈ s.1.items) ids _ hi ?_
  rintro ⟨b', n⟩ hi' id hid
  simp only
  split
  · refine List.mem_filter.mpr ⟨hi', ?_⟩
    have hne : i.id ≠ id := fun hsame => hother (hsame ▸ hid)
    simpa using hne
  · exact hi'

/-- An item that is not replaced stays. -/
theorem mem_replaceAll {b : Board} {items : List Item} {i : Item} (hi : i ∈ b.items)
    (hother : ∀ j ∈ items, j.id ≠ i.id) : i ∈ (b.replaceAll items).1.items := by
  refine List.foldlRecOn (motive := fun s : Board × Nat => i ∈ s.1.items) items _ hi ?_
  rintro ⟨b', n⟩ hi' j hj
  simp only
  split
  · next b'' hreplaced =>
      unfold replace? at hreplaced
      split at hreplaced
      · cases hreplaced
        exact Keyed.mem_put_of_ne hi' (hother j hj).symm
      · cases hreplaced
  · exact hi'

/-- Without permission, a changeset that is accepted touches no locked item. -/
theorem touchRejection?_of_locked {b : Board} (hb : b.Numbered) {i : Item} (hi : i ∈ b.items)
    (hlocked : i.locked = true) : b.touchRejection? false i.id = some (.lockedItem i.id) := by
  rw [touchRejection?, hb.item?_eq_some hi]
  simp [hlocked]

/-- What an accepted changeset without permission modifies or removes is not locked. -/
theorem free_of_accepted {b : Board} {c : Changeset} (hb : b.Numbered)
    (haccepted : b.rejection? c = none) (hforbidden : c.allowLocked = false) {i : Item}
    (hi : i ∈ b.items) (hlocked : i.locked = true) :
    (∀ j ∈ c.modified, j.id ≠ i.id) ∧ i.id ∉ c.removed := by
  simp only [rejection?, Option.or_eq_none_iff, hforbidden] at haccepted
  have htouch := touchRejection?_of_locked hb hi hlocked
  constructor
  · intro j hj hid
    have haccepts := List.findSome?_eq_none_iff.mp haccepted.2.1 j hj
    rw [modifyRejection?, Option.or_eq_none_iff, hforbidden, hid, htouch] at haccepts
    cases haccepts.1
  · intro hremoved
    have haccepts := List.findSome?_eq_none_iff.mp haccepted.2.2 _ hremoved
    rw [htouch] at haccepts
    cases haccepts

/-- **A commit without permission keeps locked items** exactly as they are. -/
theorem Numbered.commit_keeps_locked {b b' : Board} {c : Changeset} {report : CommitReport}
    (hb : b.Numbered) (h : b.commit c = .ok (.applied b' report))
    (hforbidden : c.allowLocked = false) {i : Item} (hi : i ∈ b.items)
    (hlocked : i.locked = true) : i ∈ b'.items := by
  obtain ⟨haccepted, hadd⟩ := commit_eq_applied h
  obtain ⟨hmodified, hremoved⟩ := free_of_accepted hb haccepted hforbidden hi hlocked
  obtain ⟨_, _, hb'⟩ := ((hb.removeAll c.removed).replaceAll c.modified).addAll hadd
  rw [hb']
  exact List.mem_append_left _ (mem_replaceAll (mem_removeAll hi hremoved) hmodified)

end Board

namespace Tool

/-- **The invariant.**  Nothing releases locked items, all boards have the locked items of
the first one, and a drag may not touch them. -/
structure KeepsLocked (first : Board) (t : Tool) : Prop where
  orderly : t.Orderly
  strict : t.options.autoConfirmLocked = false
  refuses : t.host.confirms = false
  numbered : ∀ b ∈ t.boards, b.Numbered
  boards : ∀ b ∈ t.boards, ∀ i ∈ first.items, i.locked = true → i ∈ b.items
  drag : ∀ op, t.session.drag? = some op → op.allowLocked = false

namespace KeepsLocked

variable {first : Board} {t t' : Tool}

/-- Permission that takes a release is not given. -/
theorem forbids (ht : t.KeepsLocked first) {allowed : Bool} (hallow : allowed = true → t.Releases) :
    allowed = false := by
  rw [← Bool.not_eq_true]
  intro hallowed
  rcases hallow hallowed with hauto | hconfirms
  · cases ht.strict.symm.trans hauto
  · cases ht.refuses.symm.trans hconfirms

/-- On an occasion on which the host says no, too. -/
theorem prompted (ht : t.KeepsLocked first) {o : Occasion} (ho : o.confirms = false) :
    (t.prompted o).KeepsLocked first :=
  ⟨ht.orderly.prompted o, ht.strict, ho, ht.numbered, ht.boards, ht.drag⟩

theorem ready (ht : t.KeepsLocked first) (c : Command) :
    (t.ready ⟨c, t.host.confirms⟩).KeepsLocked first :=
  ⟨ht.orderly.ready _, ht.strict, ht.refuses, ht.numbered, ht.boards, ht.drag⟩

/-- **No command commits with permission.** -/
theorem forbidden (ht : t.KeepsLocked first) {c : Command} {changes : Changeset}
    (hcommits : t.Commits c changes) : changes.allowLocked = false := by
  cases hcommits with
  | staged | finished => rfl
  | dragged hop => exact ht.drag _ hop
  | broken hsplit _ hallow =>
      obtain ⟨_, _, _, _, _, _, _, _, rfl⟩ := Board.splitSegment_segments hsplit
      exact ht.forbids hallow

/-- A drag that begins has no permission either. -/
theorem drags_forbidden (ht : t.KeepsLocked first) {op' : DragOp} (h : t.DragsOn t' op') :
    op'.allowLocked = false := by
  cases h with
  | began _ _ hallow _ => exact ht.forbids hallow
  | kept hop _ hallow | moved hop _ hallow => exact hallow.trans (ht.drag _ hop)

end KeepsLocked

/-- A turn without permission keeps locked items. -/
theorem turn_keepsLocked {first : Board} {t t' : Tool} {c : Command} (ht : t.KeepsLocked first)
    (h : t.turn ⟨c, t.host.confirms⟩ = .ok t') : t'.KeepsLocked first := by
  have horderly := (turn_advances ht.orderly h).orderly
  replace ht := ht.ready c
  obtain ⟨refusal, h⟩ := turn_eq_ok.mp h
  have hchanges := execute_changes ht.orderly h
  have hreboards := hchanges.boards
  have hnumbered := ht.numbered _ (board_mem_boards _)
  have hlocked := ht.boards _ (board_mem_boards _)
  have hboards : ∀ b ∈ t'.boards, ∀ i ∈ first.items, i.locked = true → i ∈ b.items := by
    apply hreboards.forall_boards ht.boards
    · intro hitems _
      rw [hitems]
      exact hlocked
    · intro changes report hcommits hcommit i hi hfixed
      have hforbidden := ht.forbidden hcommits
      exact hnumbered.commit_keeps_locked hcommit hforbidden (hlocked i hi hfixed) hfixed
  refine ⟨horderly, ?_, hreboards.confirms.trans ht.refuses, hreboards.numbered ht.numbered,
    hboards, ?_⟩
  · rw [hreboards.options]
    exact ht.strict
  · intro op' hop'
    exact ht.drags_forbidden (hchanges.drags op' hop')

/-- **The invariant.**  Besides, locked items of the boards and of the engine's world are
locked items of the first board.  A drag has grabbed none, and what it displays as locked
has the identifier of one. -/
structure LocksNothing (first : Board) (t : Tool) : Prop extends t.KeepsLocked first where
  locks : ∀ b ∈ t.boards, ∀ i ∈ b.items, i.locked = true → i ∈ first.items
  world : ∀ w, t.world = some w → ∀ i ∈ w.items, i.locked = true → i ∈ first.items
  grabbed : ∀ op, t.session.drag? = some op → ∀ i ∈ op.drag.grabbed, i.locked = false
  displayed : ∀ op, t.session.drag? = some op → ∀ i ∈ op.drag.displayed.modified,
    i.locked = true → ∃ j ∈ first.items, j.locked = true ∧ j.id = i.id

namespace LocksNothing

variable {first : Board} {t t' : Tool}

theorem prompted (ht : t.LocksNothing first) {o : Occasion} (ho : o.confirms = false) :
    (t.prompted o).LocksNothing first :=
  ⟨ht.toKeepsLocked.prompted ho, ht.locks, ht.world, ht.grabbed, ht.displayed⟩

theorem ready (ht : t.LocksNothing first) (c : Command) :
    (t.ready ⟨c, t.host.confirms⟩).LocksNothing first :=
  ⟨ht.toKeepsLocked.ready c, ht.locks, ht.world, ht.grabbed, ht.displayed⟩

/-- **No accepted commit brings a locked item**: a draft is none, and the board knows a
modified one as locked. -/
theorem not_locked_of_brings (ht : t.LocksNothing first) {c : Command} {changes : Changeset}
    (hcommits : t.Commits c changes) (haccepted : t.board.rejection? changes = none) {i : Item}
    (hi : t.board.Brings changes i) : i.locked = false := by
  have hnumbered := ht.numbered _ t.board_mem_boards
  have hforbidden := ht.forbidden hcommits
  rw [← Bool.not_eq_true]
  intro hlocked
  rcases hi with hi | ⟨d, _, _, id, rfl⟩
  · -- the lock of a modified item is that of a locked item of the board
    have hknown : ∃ j ∈ t.board.items, j.locked = true ∧ j.id = i.id := by
      cases hcommits with
      | staged | finished => cases hi
      | dragged hop =>
          obtain ⟨j, hj, hjlocked, hid⟩ :=
            ht.displayed _ hop i (List.mem_filter.mp hi).1 hlocked
          exact ⟨j, ht.boards _ t.board_mem_boards j hj hjlocked, hjlocked, hid⟩
      | broken hsplit _ _ =>
          obtain ⟨whole, hwhole, _, _, _, _, _, _, rfl⟩ := Board.splitSegment_segments hsplit
          rw [List.mem_singleton.mp hi] at hlocked ⊢
          exact ⟨whole, hwhole, hlocked, rfl⟩
    obtain ⟨j, hj, hjlocked, hid⟩ := hknown
    have hfree := (Board.free_of_accepted hnumbered haccepted hforbidden hj hjlocked).1
    exact hfree i hi hid.symm
  · cases hlocked

/-- What is displayed comes from grabbed items and from the world. -/
theorem displayed_of_displays {d : Drag} {w : World} {delta : Point}
    {anchors : List (Point × Point × NetCode)} {i : Item}
    (hgrabbed : ∀ j ∈ d.grabbed, j.locked = false)
    (hworld : ∀ b, w = some b → ∀ j ∈ b.items, j.locked = true → j ∈ first.items)
    (h : d.Displays w delta anchors i) (hlocked : i.locked = true) :
    ∃ j ∈ first.items, j.locked = true ∧ j.id = i.id := by
  cases h with
  | @moved j hj hmoved =>
      obtain ⟨_, _, _, rfl⟩ := Drag.constrained_eq_ok hmoved
      cases (hgrabbed j hj).symm.trans hlocked
  | @stretched b j hw hj _ hstretched =>
      obtain ⟨_, _, _, _, rfl⟩ := Board.stretched?_eq_some hstretched
      exact ⟨j, hworld b hw j hj hlocked, hlocked, rfl⟩

end LocksNothing

/-- A turn without permission locks nothing. -/
theorem turn_locksNothing {first : Board} {t t' : Tool} {c : Command} (ht : t.LocksNothing first)
    (h : t.turn ⟨c, t.host.confirms⟩ = .ok t') : t'.LocksNothing first := by
  have hkeeps := turn_keepsLocked ht.toKeepsLocked h
  replace ht := ht.ready c
  obtain ⟨refusal, h⟩ := turn_eq_ok.mp h
  have hchanges := execute_changes ht.orderly h
  have hlocks : ∀ b ∈ t'.boards, ∀ i ∈ b.items, i.locked = true → i ∈ first.items := by
    have hboard := ht.locks _ (board_mem_boards _)
    apply hchanges.boards.forall_boards ht.locks
    · intro hitems _
      rw [hitems]
      exact hboard
    · intro changes report hcommits hcommit i hi hlocked
      have haccepted := (Board.commit_eq_applied hcommit).1
      rcases (Board.commit_takes hcommit).items i hi with hold | hnew
      · exact hboard i hold hlocked
      · cases (ht.not_locked_of_brings hcommits haccepted hnew).symm.trans hlocked
  refine ⟨hkeeps, hlocks, ?world, ?grabbed, ?displayed⟩
  case world =>
    intro w hw
    rcases hchanges.boards.world with hsame | hnone | hloaded
    · exact ht.world w (hsame ▸ hw)
    · cases hnone.symm.trans hw
    · cases hloaded.symm.trans hw
      exact hlocks _ t'.board_mem_boards
  case grabbed =>
    intro op' hop'
    have hforbidden := ht.drags_forbidden (hchanges.drags op' hop')
    cases hchanges.drags op' hop' with
    | began _ _ _ hfree => exact hfree hforbidden
    | kept hop hsame _ => exact hsame ▸ ht.grabbed _ hop
    | moved hop hmove _ => exact (Drag.moveTo_eq_ok hmove).1 ▸ ht.grabbed _ hop
  case displayed =>
    intro op' hop' i hi hlocked
    have hforbidden := ht.drags_forbidden (hchanges.drags op' hop')
    cases hchanges.drags op' hop' with
    | began _ hfresh _ hfree =>
        cases (hfree hforbidden i (hfresh ▸ hi)).symm.trans hlocked
    | kept hop hsame _ => exact ht.displayed _ hop i (hsame ▸ hi) hlocked
    | moved hop hmove _ =>
        rcases (Drag.moveTo_eq_ok hmove).2 with hsame | ⟨delta, anchors, hdisplays⟩
        · exact ht.displayed _ hop i (hsame ▸ hi) hlocked
        · have hgrabbed := ht.grabbed _ hop
          exact LocksNothing.displayed_of_displays hgrabbed ht.world (hdisplays i hi) hlocked

theorem keepsLocked_new {board : Board} (hboard : board.Numbered) (world : World)
    {options : Options} (hstrict : options.autoConfirmLocked = false) (rules : RuleSet)
    (search : TreeSearch) :
    (new board world options rules search false).KeepsLocked board := by
  refine ⟨orderly_new board world options rules search false, hstrict, rfl, ?_, ?_, ?_⟩
  · intro b hb
    rw [eq_of_mem_boards_new hb]
    exact hboard
  · intro b hb i hi _
    rw [eq_of_mem_boards_new hb]
    exact hi
  · intro op hop
    cases hop

theorem locksNothing_new {board : Board} (hboard : board.Numbered) {world : World}
    (hworld : ∀ w, world = some w → ∀ i ∈ w.items, i.locked = true → i ∈ board.items)
    {options : Options} (hstrict : options.autoConfirmLocked = false) (rules : RuleSet)
    (search : TreeSearch) :
    (new board world options rules search false).LocksNothing board := by
  refine ⟨keepsLocked_new hboard world hstrict rules search, ?_, hworld, ?_, ?_⟩
  · intro b hb i hi _
    rw [eq_of_mem_boards_new hb] at hi
    exact hi
  · intro op hop
    cases hop
  · intro op hop
    cases hop

/-- **Locked copper is safe** as long as neither the options nor the host releases it.
Throughout a service the locked items of the first board are on the board, exactly as they
were; and no other item of the board is locked.  The latter needs that the engine's first
world locks nothing else, which holds when it is the first board, and when there is none. -/
theorem serve_keepsLocked {board : Board} (hboard : board.Numbered) (world : World)
    {options : Options} (hstrict : options.autoConfirmLocked = false) (rules : RuleSet)
    (search : TreeSearch) {os : List Occasion} (hrefuses : ∀ o ∈ os, o.confirms = false) :
    (new board world options rules search false).Serving
      (Always fun t => ∀ i ∈ board.items, i.locked = true → i ∈ t.board.items) os ∧
    ((∀ w, world = some w → ∀ i ∈ w.items, i.locked = true → i ∈ board.items) →
      (new board world options rules search false).Serving
        (Always fun t => ∀ i ∈ t.board.items, i.locked = true → i ∈ board.items) os) := by
  constructor
  · apply serving_always_of_own (I := KeepsLocked board)
    · intro t o ho ht
      exact ht.prompted (hrefuses o ho)
    · intro t c t' ht hturn
      exact turn_keepsLocked ht hturn
    · intro t ht
      exact ht.boards _ t.board_mem_boards
    · exact keepsLocked_new hboard world hstrict rules search
  · intro hworld
    apply serving_always_of_own (I := LocksNothing board)
    · intro t o ho ht
      exact ht.prompted (hrefuses o ho)
    · intro t c t' ht hturn
      exact turn_locksNothing ht hturn
    · intro t ht
      exact ht.locks _ t.board_mem_boards
    · exact locksNothing_new hboard hworld hstrict rules search

/-- A board with a pad at the end of a locked track, and another pad on the other side. -/
def padOnLockedTrack : Board :=
  { Board.standard with
    items := [⟨1, .solid ⟨1000000, 0⟩ 100000, 1, LayerRange.single ⟨0⟩, false, none⟩,
      ⟨2, .segment ⟨⟨0, 0⟩, ⟨1000000, 0⟩⟩ 250000, 1, LayerRange.single ⟨0⟩, true, none⟩,
      ⟨3, .solid ⟨5000000, 0⟩ 100000, 1, LayerRange.single ⟨1⟩, false, none⟩]
    nextId := 4 }

/-- Both pads are dragged, and the second drag is undone. -/
def dragBothPads : List Occasion :=
  [⟨.dragSelection [1] ⟨1000000, 0⟩ true, false, false⟩,
    ⟨.motion ⟨500000, 0⟩ false, false, false⟩, ⟨.click ⟨500000, 0⟩ false false, false, false⟩,
    ⟨.cancel, false, false⟩, ⟨.dragSelection [3] ⟨5000000, 0⟩ true, false, false⟩,
    ⟨.motion ⟨6000000, 0⟩ false, false, false⟩, ⟨.click ⟨6000000, 0⟩ false false, false, false⟩,
    ⟨.undo, false, false⟩]

/-- The first drag would stretch the locked track, and is refused. -/
theorem serve_keepsLocked_stretched :
    padOnLockedTrack.Numbered ∧ Options.standard.autoConfirmLocked = false ∧
      (∀ o ∈ dragBothPads, o.confirms = false) ∧
      ∃ t, (launch padOnLockedTrack Options.standard [] false).serve dragBothPads = .ok t ∧
        (∀ i ∈ padOnLockedTrack.items, i.locked = true → i ∈ t.board.items) ∧
        (∀ i ∈ t.board.items, i.locked = true → i ∈ padOnLockedTrack.items) ∧
        t.host.errors = [.commitFailed (.lockedItem 2)] ∧ t.history.canRedo = true := by
  have hboard : padOnLockedTrack.Numbered :=
    Board.numbered_ofFile (f := { BoardFile.standard with items := padOnLockedTrack.items }) rfl
  have hrefuses : ∀ o ∈ dragBothPads, o.confirms = false := by decide
  have hstrict : Options.standard.autoConfirmLocked = false := rfl
  obtain ⟨hkeeps, hlocks⟩ :=
    serve_keepsLocked hboard (some padOnLockedTrack) hstrict _ _ hrefuses
  obtain ⟨t, hserve, herrors, hredo⟩ :
      ∃ t, (launch padOnLockedTrack Options.standard [] false).serve dragBothPads = .ok t ∧
        t.host.errors = [.commitFailed (.lockedItem 2)] ∧ t.history.canRedo = true :=
    ⟨_, by rfl, by rfl, by rfl⟩
  have hworld : ∀ w, some padOnLockedTrack = some w →
      ∀ i ∈ w.items, i.locked = true → i ∈ padOnLockedTrack.items := by
    rintro w ⟨⟩ i hi _
    exact hi
  exact ⟨hboard, hstrict, hrefuses, t, hserve, hkeeps.last hserve, (hlocks hworld).last hserve,
    herrors, hredo⟩

end Tool

end CopperRoute
