import CopperRoute.Proofs.CommittedItems
import CopperRoute.Proofs.RouteChanges

/-!
# What commands do to the board

Copper reaches the board only by a commit, and a command commits at most once: the fixed
steps of a route that is broken off, a finished route, a drag, or the halves of a track
(`Tool.Commits`).  Besides that, the history gives boards back, design settings change, and
the engine gets the board anew (`Tool.Reboarding`).  The options and the answer that the
host will give are the same afterwards (`Tool.Reboards`).

A drag that runs after a command was begun by it on items of the board, locked ones only
when they were released, is as it was before, or was moved by the engine (`Tool.DragsOn`).
What a move displays are the grabbed items at their new place and tracks of the engine's
world that follow them (`Drag.Displays`).

`execute_changes` is the one place where commands are opened to see this.
-/

namespace CopperRoute

/-- **What a move displays**: grabbed items that follow a displacement, and tracks of the
world whose ends follow the anchors of these. -/
inductive Drag.Displays (d : Drag) (w : World) (delta : Point)
    (anchors : List (Point × Point × NetCode)) (i : Item) : Prop
  | moved {j : Item} (hgrabbed : j ∈ d.grabbed) (hmoved : constrained d.mode delta j = .ok i)
  | stretched {b : Board} {j : Item} (hworld : w = some b) (hj : j ∈ b.items)
      (hfree : j.id ∉ d.grabbed.map Item.id) (hstretched : Board.stretched? anchors j = some i)

/-- Everything in the list comes from an element of the other one. -/
theorem mem_of_mapM {α β : Type} {f : α → Checked β} {xs : List α} {ys : List β} {y : β}
    (h : xs.mapM f = .ok ys) (hy : y ∈ ys) : ∃ x ∈ xs, f x = .ok y := by
  induction xs generalizing ys with
  | nil =>
      cases h
      cases hy
  | cons x xs ih =>
      rw [List.mapM_cons] at h
      obtain ⟨z, hz, h⟩ := Checked.bind_eq_ok.mp h
      obtain ⟨zs, hzs, h⟩ := Checked.bind_eq_ok.mp h
      cases h
      rcases List.mem_cons.mp hy with rfl | hy
      · exact ⟨x, List.mem_cons_self, hz⟩
      · obtain ⟨x', hx', hfx'⟩ := ih hzs hy
        exact ⟨x', List.mem_cons_of_mem x hx', hfx'⟩

/-- Something is made of every element of the other list. -/
theorem exists_mem_of_mapM {α β : Type} {f : α → Checked β} {xs : List α} {ys : List β} {x : α}
    (h : xs.mapM f = .ok ys) (hx : x ∈ xs) : ∃ y ∈ ys, f x = .ok y := by
  induction xs generalizing ys with
  | nil => cases hx
  | cons x' xs ih =>
      rw [List.mapM_cons] at h
      obtain ⟨z, hz, h⟩ := Checked.bind_eq_ok.mp h
      obtain ⟨zs, hzs, h⟩ := Checked.bind_eq_ok.mp h
      cases h
      rcases List.mem_cons.mp hx with rfl | hx
      · exact ⟨z, List.mem_cons_self, hz⟩
      · obtain ⟨y, hy, hxy⟩ := ih hzs hx
        exact ⟨y, List.mem_cons_of_mem z hy, hxy⟩

/-- An accepted answer is the one that was asked about. -/
theorem settle_eq_ok {α : Type} {mode : RouterMode} {collisions : List ItemId} {answer a : α}
    (h : settle mode collisions answer = .ok a) : a = answer := by
  unfold settle at h
  split at h <;> cases h <;> rfl

/-- What is changed element by element keeps what no change touches. -/
theorem map_eq_of_mapM {α β γ : Type} {f : α → Checked β} {xs : List α} {ys : List β}
    {g : α → γ} {g' : β → γ} (hkeeps : ∀ x y, f x = .ok y → g' y = g x) (h : xs.mapM f = .ok ys) :
    ys.map g' = xs.map g := by
  induction xs generalizing ys with
  | nil =>
      cases h
      rfl
  | cons x xs ih =>
      rw [List.mapM_cons] at h
      obtain ⟨z, hz, h⟩ := Checked.bind_eq_ok.mp h
      obtain ⟨zs, hzs, h⟩ := Checked.bind_eq_ok.mp h
      cases h
      rw [List.map_cons, List.map_cons, hkeeps x z hz, ih hzs]

/-- The tracks of the board, other than the grabbed ones, whose ends follow the anchors of
these. -/
def Board.followers (b : Board) (grabbed moved : List Item) : List Item :=
  (b.items.filter fun i => !(grabbed.map Item.id).contains i.id).filterMap
    (stretched? (movedAnchors grabbed moved))

/-- What the engine answers to a drag is what its world gives, if the router mode accepts it. -/
theorem World.drag_eq_ok {w : World} {grabbed moved : List Item} {mode : RouterMode}
    {g : DragGeometry} (h : w.drag grabbed moved mode = .ok (.ok g)) :
    ∃ b, w = some b ∧ b.dragGeometry grabbed moved = .ok g ∧
      settle mode g.collisions g = .ok g := by
  cases w with
  | none => cases h
  | some b =>
      obtain ⟨g', hg, h⟩ := Checked.bind_eq_ok.mp h
      have haccepted : settle mode g'.collisions g' = .ok g := Except.ok.inj h
      obtain rfl := settle_eq_ok haccepted
      exact ⟨b, rfl, hg, haccepted⟩

/-- **What a drag changes**: the grabbed items, and the tracks that follow them. -/
theorem Board.dragGeometry_eq_ok {b : Board} {grabbed moved : List Item} {g : DragGeometry}
    (h : b.dragGeometry grabbed moved = .ok g) :
    g.modified = moved ++ b.followers grabbed moved ∧
      b.allConflicts (g.modified.map Item.draft) (g.modified.map Item.id) = .ok g.collisions := by
  obtain ⟨hits, hhits, h⟩ := Checked.bind_eq_ok.mp h
  cases h
  exact ⟨rfl, hhits⟩

/-- **The answer to a move**: the grabbed items at their new place, and then what follows
them. -/
theorem Drag.solve_eq_ok {d : Drag} {w : World} {target : Point} {g : DragGeometry}
    (h : d.solve w.drag target = .ok (.ok g)) :
    ∃ b delta moved, w = some b ∧ d.grabbed.mapM (constrained d.mode delta) = .ok moved ∧
      g.modified = moved ++ b.followers d.grabbed moved := by
  obtain ⟨delta, _, h⟩ := Checked.bind_eq_ok.mp h
  obtain ⟨moved, hmoved, h⟩ := Checked.bind_eq_ok.mp h
  obtain ⟨b, hworld, hg, _⟩ := World.drag_eq_ok h
  exact ⟨b, delta, moved, hworld, hmoved, (Board.dragGeometry_eq_ok hg).1⟩

/-- **Behind a move** the same is displayed as before, or the answer to it. -/
theorem Drag.moveTo_answer {d d' : Drag} {w : World} {target : Point}
    (h : d.moveTo w target = .ok (.ok d')) :
    d'.grabbed = d.grabbed ∧ (d'.displayed = d.displayed ∨
      ∃ b delta moved, w = some b ∧ d.grabbed.mapM (constrained d.mode delta) = .ok moved ∧
        d'.displayed.modified = moved ++ b.followers d.grabbed moved) := by
  unfold moveTo moveWith at h
  split at h
  · cases h
    exact ⟨rfl, .inl rfl⟩
  · obtain ⟨answer, hsolve, h⟩ := Checked.bind_eq_ok.mp h
    cases answer with
    | error failure => cases h
    | ok geometry =>
        cases h
        exact ⟨rfl, .inr (solve_eq_ok hsolve)⟩

/-- **Moving keeps the kind** of a shape and all its sizes. -/
inductive Shape.MovesTo (d : Point) : Shape → Shape → Prop
  | segment {axis axis' : Segment} {width : UInt32} (hstart : axis.start.moveBy d = .ok axis'.start)
      (hstop : axis.stop.moveBy d = .ok axis'.stop) :
      MovesTo d (.segment axis width) (.segment axis' width)
  | via {p q : Point} {diameter drill : UInt32} {type : ViaType} :
      MovesTo d (.via p diameter drill type) (.via q diameter drill type)
  | solid {p q : Point} {size : UInt32} : MovesTo d (.solid p size) (.solid q size)

/-- A shape that is moved keeps its kind. -/
theorem Shape.movesTo_of_moveBy {s s' : Shape} {d : Point} (h : s.moveBy d = .ok s') :
    s.MovesTo d s' := by
  cases s with
  | segment axis width =>
      obtain ⟨start, hstart, h⟩ := Checked.bind_eq_ok.mp h
      obtain ⟨stop, hstop, h⟩ := Checked.bind_eq_ok.mp h
      cases h
      exact .segment hstart hstop
  | via p diameter drill type =>
      obtain ⟨q, _, h⟩ := Checked.bind_eq_ok.mp h
      cases h
      exact .via
  | solid p size =>
      obtain ⟨q, _, h⟩ := Checked.bind_eq_ok.mp h
      cases h
      exact .solid

/-- A dragged item moves, and changes nothing else. -/
theorem Drag.constrained_eq_ok {mode : DragMode} {delta : Point} {i j : Item}
    (h : constrained mode delta j = .ok i) :
    ∃ shift shape, j.shape.MovesTo shift shape ∧ i = { j with shape := shape } := by
  obtain ⟨shift, _, h⟩ := Checked.bind_eq_ok.mp h
  obtain ⟨shape, hshape, h⟩ := Checked.bind_eq_ok.mp h
  cases h
  exact ⟨shift, shape, Shape.movesTo_of_moveBy hshape, rfl⟩

/-- A dragged item stays the same item. -/
theorem Drag.id_eq_of_constrained {mode : DragMode} {delta : Point} {i j : Item}
    (h : constrained mode delta j = .ok i) : i.id = j.id := by
  obtain ⟨_, _, _, rfl⟩ := constrained_eq_ok h
  rfl

/-- Only tracks are stretched, and only their ends change. -/
theorem Board.stretched?_eq_some {anchors : List (Point × Point × NetCode)} {i j : Item}
    (h : stretched? anchors j = some i) : ∃ axis axis' width, j.shape = .segment axis width ∧
      i = { j with shape := .segment axis' width } := by
  unfold stretched? at h
  split at h
  · next axis width hshape =>
      simp only at h
      split at h
      · cases h
      · exact ⟨axis, _, width, hshape, (Option.some.inj h).symm⟩
  · cases h

/-- A stretched track stays the same item. -/
theorem Board.id_eq_of_stretched {anchors : List (Point × Point × NetCode)} {i j : Item}
    (h : stretched? anchors j = some i) : i.id = j.id := by
  obtain ⟨_, _, _, _, rfl⟩ := stretched?_eq_some h
  rfl

/-- A track that is stretched is another one. -/
theorem Board.ne_of_stretched {anchors : List (Point × Point × NetCode)} {i j : Item}
    (h : stretched? anchors j = some i) : i ≠ j := by
  unfold stretched? at h
  split at h
  · next axis width hshape =>
      simp only at h
      split at h
      · cases h
      · next hmoved =>
          intro hsame
          have hshapes := congrArg Item.shape ((Option.some.inj h).trans hsame)
          rw [hshape, Shape.segment.injEq] at hshapes
          exact hmoved hshapes.1
  · cases h

/-- What follows a drag is a stretched track of the board that was not grabbed. -/
theorem Board.mem_followers {b : Board} {grabbed moved : List Item} {i : Item} :
    i ∈ b.followers grabbed moved ↔ ∃ j ∈ b.items, j.id ∉ grabbed.map Item.id ∧
      stretched? (movedAnchors grabbed moved) j = some i := by
  rw [followers, List.mem_filterMap]
  constructor
  · rintro ⟨j, hj, hji⟩
    obtain ⟨hthere, hfree⟩ := List.mem_filter.mp hj
    exact ⟨j, hthere, by simpa using hfree, hji⟩
  · rintro ⟨j, hthere, hfree, hji⟩
    exact ⟨j, List.mem_filter.mpr ⟨hthere, by simpa using hfree⟩, hji⟩

/-- A move keeps what was grabbed, and displays what it did before or what follows the
displacement. -/
theorem Drag.moveTo_eq_ok {d d' : Drag} {w : World} {target : Point}
    (h : d.moveTo w target = .ok (.ok d')) :
    d'.grabbed = d.grabbed ∧ (d'.displayed = d.displayed ∨
      ∃ delta anchors, ∀ i ∈ d'.displayed.modified, d.Displays w delta anchors i) := by
  obtain ⟨hgrabbed, hbefore | ⟨b, delta, moved, hworld, hmoved, hdisplayed⟩⟩ := moveTo_answer h
  · exact ⟨hgrabbed, .inl hbefore⟩
  · refine ⟨hgrabbed, .inr ⟨delta, Board.movedAnchors d.grabbed moved, fun i hi => ?_⟩⟩
    rw [hdisplayed] at hi
    rcases List.mem_append.mp hi with hi | hi
    · obtain ⟨j, hj, hji⟩ := mem_of_mapM hmoved hi
      exact .moved hj hji
    · obtain ⟨j, hj, hfree, hji⟩ := Board.mem_followers.mp hi
      exact .stretched hworld hj hfree hji

/-- Breaking a track makes two tracks, which meet at its position nearest to the point. -/
theorem Board.splitSegment_eq_some {b : Board} {id : ItemId} {p : Point} {allowLocked : Bool}
    {changes : Changeset} (h : b.splitSegment id p allowLocked = .ok (some changes)) :
    ∃ i axis width middle, b.item? id = some i ∧ i.shape = .segment axis width ∧
      axis.nearestPoint p = .ok middle ∧ middle ≠ axis.start ∧ middle ≠ axis.stop ∧
      changes = { added := [⟨.segment ⟨middle, axis.stop⟩ width, i.net, i.layers⟩]
                  modified := [{ i with shape := .segment ⟨axis.start, middle⟩ width }]
                  removed := []
                  allowLocked := allowLocked } := by
  unfold splitSegment at h
  split at h
  · cases h
  · next i hi =>
      split at h
      · next axis width hshape =>
          obtain ⟨middle, hmiddle, h⟩ := Checked.bind_eq_ok.mp h
          split at h
          · cases h
          · next hinside =>
              cases h
              rw [not_or] at hinside
              exact ⟨i, axis, width, middle, hi, hshape, hmiddle, hinside.1, hinside.2, rfl⟩
      · cases h

/-- A break replaces a track of the board by two, which meet inside it. -/
theorem Board.splitSegment_segments {b : Board} {id : ItemId} {p : Point} {allowLocked : Bool}
    {changes : Changeset} (h : b.splitSegment id p allowLocked = .ok (some changes)) :
    ∃ i ∈ b.items, ∃ axis width middle, i.shape = .segment axis width ∧ middle ≠ axis.start ∧
      middle ≠ axis.stop ∧
      changes = { added := [⟨.segment ⟨middle, axis.stop⟩ width, i.net, i.layers⟩]
                  modified := [{ i with shape := .segment ⟨axis.start, middle⟩ width }]
                  removed := []
                  allowLocked := allowLocked } := by
  obtain ⟨i, axis, width, middle, hi, hshape, _, hparts⟩ := splitSegment_eq_some h
  exact ⟨i, List.mem_of_find?_eq_some hi, axis, width, middle, hshape, hparts⟩

/-- Reducing a selection to its corner chooses from it. -/
theorem cornerHandle_subset {items : List Item} {i : Item} (h : i ∈ cornerHandle items) :
    i ∈ items := by
  unfold cornerHandle at h
  split at h
  · have hchosen := Option.mem_toList.mp h
    rcases Option.or_eq_some_iff.mp hchosen with hvia | ⟨_, hhead⟩
    · exact List.mem_of_find?_eq_some hvia
    · exact List.mem_of_head? hhead
  · exact h

/-- What a route would commit does not depend on the head that is drawn. -/
theorem RouteOp.Redraws.changeset {op op' : RouteOp} (h : op.Redraws op')
    (head : Option RouteGeometry) : op'.changeset head = op.changeset head := by
  simp only [RouteOp.changeset, RouteOp.staged, h.steps]

/-- A change of the route leaves the drag alone. -/
theorem Session.drag?_mapRoute (s : Session) (f : RouteOp → RouteOp) :
    (s.mapRoute f).drag? = s.drag? := by
  cases hop : s.operation <;> simp [mapRoute, drag?, hop]

/-- Without an operation nothing is dragged. -/
theorem Session.drag?_of_none {s : Session} (h : s.operation = .none) : s.drag? = none := by
  simp only [drag?, h]

/-- Where a route runs there is no drag. -/
theorem Session.drag?_of_route {s : Session} {op : RouteOp} (h : s.route? = some op) :
    s.drag? = none := by
  simp only [drag?, route?_eq_some.mp h]

/-- Size commands leave the frame of the board alone. -/
theorem Command.Redesigns.sameFrame {c : Command} {change : Design → Design}
    (h : c.Redesigns change) (b : Board) : b.SameFrame (b.redesign change) := by
  cases h <;> exact ⟨rfl, rfl, rfl⟩

namespace History

variable {α : Type} {h h' : History α} {a current : α}

/-- Recording a state adds that one alone. -/
theorem mem_of_record (hrecord : h.record current = .ok h') {b : α}
    (hb : b ∈ h'.undoStack ++ h'.redoStack) : b = current ∨ b ∈ h.undoStack ++ h.redoStack := by
  unfold record at hrecord
  split at hrecord
  · cases hrecord
  · cases hrecord
    have hkept : b ∈ h.push current h.undoStack := by simpa using hb
    rcases List.mem_cons.mp (List.mem_of_mem_take hkept) with rfl | hold
    · exact .inl rfl
    · exact .inr (List.mem_append_left _ hold)

/-- Going back leads to a state that was kept, and keeps the current one at most. -/
theorem mem_of_undo (hundo : h.undo current = some (a, h')) :
    a ∈ h.undoStack ∧ ∀ b ∈ h'.undoStack ++ h'.redoStack,
      b = current ∨ b ∈ h.undoStack ++ h.redoStack := by
  unfold undo at hundo
  split at hundo
  · cases hundo
  · next newest rest hstack =>
      cases hundo
      rw [hstack]
      refine ⟨List.mem_cons_self, fun b hb => ?_⟩
      rcases List.mem_append.mp hb with hb | hb
      · exact .inr (List.mem_append_left _ (List.mem_cons_of_mem _ hb))
      · rcases List.mem_cons.mp (List.mem_of_mem_take hb) with rfl | hold
        · exact .inl rfl
        · exact .inr (List.mem_append_right _ hold)

/-- So does going forward. -/
theorem mem_of_redo (hredo : h.redo current = some (a, h')) :
    a ∈ h.redoStack ∧ ∀ b ∈ h'.undoStack ++ h'.redoStack,
      b = current ∨ b ∈ h.undoStack ++ h.redoStack := by
  unfold redo at hredo
  split at hredo
  · cases hredo
  · next newest rest hstack =>
      cases hredo
      rw [hstack]
      refine ⟨List.mem_cons_self, fun b hb => ?_⟩
      rcases List.mem_append.mp hb with hb | hb
      · rcases List.mem_cons.mp (List.mem_of_mem_take hb) with rfl | hold
        · exact .inl rfl
        · exact .inr (List.mem_append_left _ hold)
      · exact .inr (List.mem_append_right _ (List.mem_cons_of_mem _ hb))

end History

/-- The commands that break a running operation off, most of them to begin another one. -/
inductive Command.Interrupts : Command → Prop
  | startRouting (p : Point) (id : Option ItemId) : Interrupts (.startRouting p id)
  | startDrag (ids : List ItemId) (anchor : Point) (mode : DragMode) :
      Interrupts (.startDrag ids anchor mode)
  | startFootprintDrag (id : FootprintId) (anchor : Point) (mode : DragMode) :
      Interrupts (.startFootprintDrag id anchor mode)
  | cancelOperation : Interrupts .cancelOperation

/-- Taking hold of the host does not change its mind. -/
@[simp] theorem Host.confirms_acquire (h : Host) (net : Option NetCode) :
    (h.acquire net).confirms = h.confirms := by
  cases net <;> rfl

/-- Giving the edit block back does not change the host's mind. -/
@[simp] theorem Interaction.confirms_releasedHost (i : Interaction) :
    i.releasedHost.confirms = i.host.confirms := by
  unfold releasedHost
  split <;> rfl

/-- Breaking an operation off does not change the mind of the host. -/
@[simp] theorem Interaction.confirms_cancel (i : Interaction) :
    i.cancel.1.host.confirms = i.host.confirms := by
  unfold cancel
  split
  · rfl
  · exact i.confirms_releasedHost

namespace Tool

/-- Locked copper may be changed without asking, or the host would say yes. -/
def Releases (t : Tool) : Prop := t.options.autoConfirmLocked = true ∨ t.host.confirms = true

/-- **What a command can commit.** -/
inductive Commits (t : Tool) : Command → Changeset → Prop
  /-- Before another operation begins, or when a route is broken off. -/
  | staged {c : Command} {op : RouteOp} (hop : t.session.route? = some op)
      (hinterrupts : c.Interrupts) :
      Commits t c (op.changeset none)
  | finished {p : Point} {id : Option ItemId} {finish : Bool} {op : RouteOp} {g : RouteGeometry}
      (hop : t.session.route? = some op)
      (hanswer : t.world.route (t.asks (op.aim p id op.ortho)) = .ok (.ok g))
      (hlast : finish = true ∨ g.reachedTarget = true) :
      Commits t (.fixRoute p id finish) (op.changeset (some g))
  | dragged {op : DragOp} (hop : t.session.drag? = some op) :
      Commits t .fixDrag (op.drag.changeset op.allowLocked)
  | broken {p : Point} {id : ItemId} {allowLocked : Bool} {changes : Changeset}
      (hsplit : t.board.splitSegment id p allowLocked = .ok (some changes))
      (hidle : t.session.isIdle = true) (hallow : allowLocked = true → t.Releases) :
      Commits t (.breakTrack p) changes

/-- **What a command can do to the boards**: the one on the table, those in the history,
and the one that the engine works on. -/
inductive Reboarding (t : Tool) (c : Command) (t' : Tool) : Prop
  | kept (hboard : t'.board = t.board) (hhistory : t'.history = t.history)
      (hworld : t'.world = t.world)
  /-- The engine gets the board, perhaps with other design settings. -/
  | loaded {design : Design} (hboard : t'.board = { t.board with design := design })
      (hframe : t.board.SameFrame t'.board) (hhistory : t'.history = t.history)
      (hworld : t'.world = some t'.board)
  | unloaded (hboard : t'.board = t.board) (hhistory : t'.history = t.history)
      (hworld : t'.world = none) (hcommand : c = .clearWorld)
  | committed {changes : Changeset} {report : CommitReport} (hcommits : t.Commits c changes)
      (hcommit : t.board.commit changes = .ok (.applied t'.board report))
      (hhistory : t.history.record t.board = .ok t'.history) (hworld : t'.world = some t'.board)
  | undone (hundo : t.history.undo t.board = some (t'.board, t'.history))
      (hworld : t'.world = t.world) (hcommand : c = .undo) (hidle : t.session.isIdle = true)
  | redone (hredo : t.history.redo t.board = some (t'.board, t'.history))
      (hworld : t'.world = t.world) (hcommand : c = .redo) (hidle : t.session.isIdle = true)

/-- The options stay, and the host will give the same answer. -/
structure SameSettings (t t' : Tool) : Prop where
  options : t'.options = t.options
  confirms : t'.host.confirms = t.host.confirms

/-- What becomes of the boards under the same settings. -/
structure Reboards (t : Tool) (c : Command) (t' : Tool) : Prop extends t.SameSettings t' where
  way : t.Reboarding c t'

/-- **Where the running drag comes from.**  Locked items can be among the grabbed ones only
when their change is allowed. -/
inductive DragsOn (t t' : Tool) (op' : DragOp) : Prop
  | began (hgrabbed : ∀ i ∈ op'.drag.grabbed, i ∈ t'.board.items)
      (hfresh : op'.drag.displayed.modified = op'.drag.grabbed)
      (hallow : op'.allowLocked = true → t.Releases)
      (hlocked : op'.allowLocked = false → ∀ i ∈ op'.drag.grabbed, i.locked = false)
  | kept {op : DragOp} (hop : t.session.drag? = some op) (hsame : op'.drag = op.drag)
      (hallow : op'.allowLocked = op.allowLocked)
  | moved {op : DragOp} {p : Point} (hop : t.session.drag? = some op)
      (hmove : op.drag.moveTo t.world p = .ok (.ok op'.drag))
      (hallow : op'.allowLocked = op.allowLocked)

/-- What a command does to the boards and to the drag. -/
structure Changes (t : Tool) (c : Command) (t' : Tool) : Prop where
  boards : t.Reboards c t'
  drags : ∀ op', t'.session.drag? = some op' → t.DragsOn t' op'

/-- All boards stay, and so do the settings. -/
structure SameBoards (t t' : Tool) : Prop extends t.SameSettings t' where
  board : t'.board = t.board
  history : t'.history = t.history
  world : t'.world = t.world

/-- All boards stay, and a drag that runs afterwards is the one from before. -/
structure KeepsBoards (t t' : Tool) : Prop extends t.SameBoards t' where
  drag : ∀ op', t'.session.drag? = some op' → t.session.drag? = some op'

/-- Settings that stay twice stay. -/
theorem SameSettings.trans {t u v : Tool} (htu : t.SameSettings u) (huv : u.SameSettings v) :
    t.SameSettings v :=
  ⟨huv.options.trans htu.options, huv.confirms.trans htu.confirms⟩

/-- Under the same settings locked copper is released or not as before. -/
theorem SameSettings.releases_iff {t t' : Tool} (h : t.SameSettings t') :
    t'.Releases ↔ t.Releases := by
  rw [Releases, h.options, h.confirms, Releases]

/-- Boards that stay twice stay. -/
theorem SameBoards.trans {t u v : Tool} (htu : t.SameBoards u) (huv : u.SameBoards v) :
    t.SameBoards v :=
  ⟨htu.toSameSettings.trans huv.toSameSettings, huv.board.trans htu.board,
    huv.history.trans htu.history, huv.world.trans htu.world⟩

theorem KeepsBoards.refl (t : Tool) : t.KeepsBoards t :=
  ⟨⟨⟨rfl, rfl⟩, rfl, rfl, rfl⟩, fun _ h => h⟩

/-- Two steps that keep the boards keep them together. -/
theorem KeepsBoards.trans {t u v : Tool} (htu : t.KeepsBoards u) (huv : u.KeepsBoards v) :
    t.KeepsBoards v :=
  ⟨htu.toSameBoards.trans huv.toSameBoards, fun op' h => htu.drag op' (huv.drag op' h)⟩

/-- What happens in session and host alone keeps the boards. -/
theorem sameBoards_interaction (t : Tool) {i : Interaction}
    (hconfirms : i.host.confirms = t.host.confirms) :
    t.SameBoards { t with toInteraction := i } :=
  ⟨⟨rfl, hconfirms⟩, rfl, rfl, rfl⟩

/-- It keeps the drag as well, when that stays or goes. -/
theorem keepsBoards_interaction (t : Tool) (i : Interaction)
    (hconfirms : i.host.confirms = t.host.confirms)
    (h : i.session.drag? = t.session.drag? ∨ i.session.drag? = none) :
    t.KeepsBoards { t with toInteraction := i } := by
  refine ⟨t.sameBoards_interaction hconfirms, fun op' hop' => ?_⟩
  have hdrag : i.session.drag? = some op' := hop'
  rcases h with hsame | hnone
  · exact hsame ▸ hdrag
  · cases hnone.symm.trans hdrag

/-- What happens in the session alone is not seen on the boards. -/
theorem sameBoards_mapSession (t : Tool) (f : Session → Session) :
    t.SameBoards (t.mapSession f) :=
  t.sameBoards_interaction (i := ⟨f t.session, t.host⟩) rfl

/-- A change of the session keeps the boards when the drag stays or goes. -/
theorem keepsBoards_mapSession (t : Tool) {f : Session → Session}
    (h : (f t.session).drag? = t.session.drag? ∨ (f t.session).drag? = none) :
    t.KeepsBoards (t.mapSession f) :=
  t.keepsBoards_interaction ⟨f t.session, t.host⟩ rfl h

/-- A notification keeps the boards. -/
theorem keepsBoards_notify (t : Tool) (n : Notification) : t.KeepsBoards (t.notify n) :=
  t.keepsBoards_interaction ⟨t.session, t.host.notify n⟩ rfl (.inl rfl)

theorem keepsBoards_report (t : Tool) (e : RouterError) : t.KeepsBoards (t.report e) :=
  t.keepsBoards_notify (.error e)

/-- Boards that stay are one of the ways in which boards change. -/
theorem SameBoards.reboards {t t' : Tool} (h : t.SameBoards t') (c : Command) : t.Reboards c t' :=
  ⟨h.toSameSettings, .kept h.board h.history h.world⟩

/-- A command that keeps the boards changes them in a listed way. -/
theorem KeepsBoards.changes {t t' : Tool} (h : t.KeepsBoards t') (c : Command) : t.Changes c t' :=
  ⟨h.reboards c, fun op' hop' => .kept (h.drag op' hop') rfl rfl⟩

/-- What happens to the boards before they stay as they are. -/
theorem Reboards.trans_same {t u t' : Tool} {c : Command} (h : t.Reboards c u)
    (hsame : u.SameBoards t') : t.Reboards c t' := by
  refine ⟨h.toSameSettings.trans hsame.toSameSettings, ?_⟩
  have hboard := hsame.board
  have hhistory := hsame.history
  have hworld := hsame.world
  cases h.way with
  | kept hitems hpast hloaded =>
      exact .kept (hboard.trans hitems) (hhistory.trans hpast) (hworld.trans hloaded)
  | loaded hdesign hframe hpast hloaded =>
      exact .loaded (hboard.trans hdesign) (hboard ▸ hframe) (hhistory.trans hpast)
        (by rw [hworld, hboard, hloaded])
  | unloaded hitems hpast hloaded hcommand =>
      exact .unloaded (hboard.trans hitems) (hhistory.trans hpast) (hworld.trans hloaded) hcommand
  | committed hcommits hcommit hrecord hloaded =>
      exact .committed hcommits (hboard ▸ hcommit) (hhistory ▸ hrecord)
        (by rw [hworld, hboard, hloaded])
  | undone hundo hloaded hcommand hidle =>
      exact .undone (by rw [hboard, hhistory, hundo]) (hworld.trans hloaded) hcommand hidle
  | redone hredo hloaded hcommand hidle =>
      exact .redone (by rw [hboard, hhistory, hredo]) (hworld.trans hloaded) hcommand hidle

/-- When no drag runs afterwards, only the boards matter. -/
theorem Reboards.changes_of_none {t t' : Tool} {c : Command} (h : t.Reboards c t')
    (hnone : t'.session.drag? = none) : t.Changes c t' :=
  ⟨h, fun op' hop' => by cases hnone.symm.trans hop'⟩

/-- A new head keeps the boards. -/
theorem refreshHead_keepsBoards {t t' : Tool} (h : t.refreshHead = .ok t') : t.KeepsBoards t' := by
  rcases refreshHead_eq_ok h with rfl | ⟨g, rfl⟩
  · exact KeepsBoards.refl t'
  · exact t.keepsBoards_mapSession (.inl (t.session.drag?_mapRoute _))

/-- Moving the head keeps the boards. -/
theorem moveHead_keepsBoards {t t' : Tool} {p : Point} {id : Option ItemId} {ortho : Bool}
    (h : t.moveHead p id ortho = .ok t') : t.KeepsBoards t' :=
  (t.keepsBoards_mapSession (.inl (Session.drag?_mapRoute _ _))).trans (refreshHead_keepsBoards h)

/-- Taking back a fixed step keeps the boards, since the step was not on them. -/
theorem undoLastSegment_keepsBoards {t t' : Tool} (h : t.undoLastSegment = .ok t') :
    t.KeepsBoards t' := by
  unfold undoLastSegment at h
  split at h
  · cases h
    exact KeepsBoards.refl t
  · exact (t.keepsBoards_mapSession (.inr rfl)).trans (refreshHead_keepsBoards h)

/-- Taking back the via keeps the boards. -/
theorem withdrawVia_keepsBoards (t : Tool) : t.KeepsBoards (t.mapSession Session.withdrawVia) := by
  refine t.keepsBoards_mapSession (.inl ?_)
  unfold Session.withdrawVia
  split
  · exact Session.drag?_mapRoute _ _
  · rfl

/-- Hanging a via on or taking it back keeps the boards. -/
theorem toggleVia_keepsBoards {t t' : Tool} {v : ViaType} {target : Option LayerId}
    (h : t.toggleVia v target = .ok t') : t.KeepsBoards t' := by
  unfold toggleVia at h
  split at h
  · cases h
    exact t.keepsBoards_notify _
  · split at h
    · exact t.withdrawVia_keepsBoards.trans (refreshHead_keepsBoards h)
    · split at h
      · cases h
        exact t.keepsBoards_report _
      · exact (t.keepsBoards_mapSession (.inr rfl)).trans (refreshHead_keepsBoards h)

/-- The command for a via keeps the boards. -/
theorem placeVia_keepsBoards {t t' : Tool} {v : ViaType} {target : Option LayerId}
    (h : t.placeVia v target = .ok t') : t.KeepsBoards t' :=
  (t.keepsBoards_mapSession (.inl rfl)).trans (toggleVia_keepsBoards h)

/-- Switching layers keeps the boards. -/
theorem switchLayer_keepsBoards {t t' : Tool} {command : LayerCommand}
    (h : t.switchLayer command = .ok t') : t.KeepsBoards t' := by
  refine t.withdrawVia_keepsBoards.trans ?_
  simp only [switchLayer, goToLayer] at h
  split at h
  · cases h
    exact KeepsBoards.refl _
  · cases h
    exact keepsBoards_mapSession _ (.inl rfl)
  · unfold routeToLayer at h
    split at h
    · exact (keepsBoards_mapSession _ (.inl (Session.drag?_mapRoute _ _))).trans
        (refreshHead_keepsBoards h)
    · exact placeVia_keepsBoards h
    · cases h
      exact keepsBoards_report _ _

/-- Choosing the router mode keeps the boards. -/
theorem setRouterMode_keepsBoards {t t' : Tool} {mode : RouterMode}
    (h : t.setRouterMode mode = .ok t') : t.KeepsBoards t' := by
  unfold setRouterMode at h
  split at h
  · cases h
    exact KeepsBoards.refl t
  · exact (t.keepsBoards_mapSession (.inl rfl)).trans (refreshHead_keepsBoards h)

/-- The question for locked copper keeps the boards. -/
theorem mayChange_keepsBoards (t : Tool) (locked : Bool) (q : Question) :
    t.KeepsBoards (t.mayChange locked q).1 := by
  unfold mayChange
  split
  · exact KeepsBoards.refl t
  · exact t.keepsBoards_interaction ⟨t.session, (t.host.ask q).1⟩ rfl (.inl rfl)

/-- Locked copper is changed only when that is allowed. -/
theorem releases_of_mayChange (t : Tool) (locked : Bool) (q : Question)
    (h : (t.mayChange locked q).2 = true) (hlocked : locked = true) : t.Releases := by
  unfold mayChange at h
  split at h
  · next hfree =>
      rw [hlocked] at hfree
      exact .inl (by simpa using hfree)
  · exact .inr h

/-- A commit of what the command may commit. -/
theorem commit_reboards {t u t' : Tool} {c : Command} {changes : Changeset}
    {r : Except CommitRejection CommitReport} (hsame : t.SameBoards u)
    (hcommits : t.Commits c changes) (h : u.commit changes = .ok (r, t')) : t.Reboards c t' := by
  rcases commit_eq_ok h with ⟨_, rfl⟩ | ⟨_, rfl⟩ | happlied
  · exact hsame.reboards c
  · exact (hsame.trans (u.keepsBoards_notify _).toSameBoards).reboards c
  · obtain ⟨board, report, history, hcommit, hrecord, _, rfl⟩ := happlied
    rw [hsame.board] at hcommit hrecord
    rw [hsame.history] at hrecord
    exact ⟨⟨hsame.options, hsame.confirms⟩, .committed hcommits hcommit hrecord rfl⟩

/-- A changeset that is accepted and not empty reaches the board. -/
theorem commit_applies {t t' : Tool} {c : Changeset} {r : Except CommitRejection CommitReport}
    (haccepted : t.board.rejection? c = none) (hsome : c.isEmpty = false)
    (h : t.commit c = .ok (r, t')) :
    ∃ report, t.board.commit c = .ok (.applied t'.board report) := by
  obtain ⟨outcome, houtcome, h⟩ := Checked.bind_eq_ok.mp h
  obtain ⟨board, report, rfl⟩ := Board.commit_applies haccepted hsome houtcome
  obtain ⟨history, _, h⟩ := Checked.bind_eq_ok.mp h
  cases h
  exact ⟨report, houtcome⟩

/-- Taking over the fixed steps commits them, if it can. -/
theorem commitStaged_reboards {t t' : Tool} {c : Command} (hc : c.Interrupts)
    (h : t.commitStaged = .ok t') : t.Reboards c t' := by
  unfold commitStaged at h
  split at h
  · cases h
    exact (KeepsBoards.refl t).reboards c
  · next changes hstaged =>
      have hroute := (Option.filter_eq_some_iff.mp hstaged).1
      obtain ⟨op, hop, rfl⟩ := Option.map_eq_some_iff.mp hroute
      obtain ⟨⟨r, u⟩, hcommit, h⟩ := Checked.bind_eq_ok.mp h
      have hcommitted := commit_reboards (KeepsBoards.refl t).toSameBoards (.staged hop hc) hcommit
      refine hcommitted.trans_same ?_
      cases r <;> cases h
      · exact (u.keepsBoards_report _).toSameBoards
      · exact u.sameBoards_mapSession _

/-- Stopping an operation commits the fixed steps at most. -/
theorem stopOperation_reboards {t t' : Tool} {c : Command} {stopped : Bool} (hc : c.Interrupts)
    (h : t.stopOperation = .ok (t', stopped)) : t.Reboards c t' := by
  obtain ⟨u, hstaged, h⟩ := Checked.bind_eq_ok.mp h
  refine (commitStaged_reboards hc hstaged).trans_same ?_
  have hconfirms := u.toInteraction.confirms_cancel
  generalize u.toInteraction.cancel = cancelled at h hconfirms
  obtain ⟨i, stopped'⟩ := cancelled
  cases h
  exact u.sameBoards_interaction hconfirms

/-- Making room for another operation commits the fixed steps at most. -/
theorem makeIdle_reboards {t t' : Tool} {c : Command} (hc : c.Interrupts)
    (h : t.makeIdle = .ok t') : t.Reboards c t' := by
  unfold makeIdle at h
  split at h
  · cases h
    exact (KeepsBoards.refl t).reboards c
  · obtain ⟨⟨u, stopped⟩, hstop, h⟩ := Checked.bind_eq_ok.mp h
    cases h
    exact stopOperation_reboards hc hstop

/-- Ending an operation leaves the boards alone. -/
theorem finish_sameBoards (t : Tool) (committed : Bool) :
    t.SameBoards { t with toInteraction := t.toInteraction.finish committed } :=
  t.sameBoards_interaction t.toInteraction.confirms_releasedHost

/-- So does going on with it after a refused fix. -/
theorem resume_sameBoards (t : Tool) (e : RouterError) :
    t.SameBoards ((t.report e).mapSession Session.resume) :=
  (t.keepsBoards_report e).toSameBoards.trans (sameBoards_mapSession _ _)

/-- A route that is finished, or goes on, leaves no drag. -/
theorem finishRoute_drag? {u t' : Tool} {op : RouteOp} {g : RouteGeometry}
    (hop : u.session.route? = some op) (h : u.finishRoute g = .ok t') :
    t'.session.drag? = none := by
  obtain ⟨⟨r, v⟩, hcommit, h⟩ := Checked.bind_eq_ok.mp h
  cases r with
  | ok report =>
      cases h
      exact Session.drag?_of_none (Session.operation_finished _ _)
  | error reason =>
      cases h
      show v.session.drag? = none
      rw [commit_session hcommit]
      exact Session.drag?_of_route hop

/-- Finishing a route commits it, and leaves no drag. -/
theorem finishRoute_changes {t u t' : Tool} {c : Command} {op : RouteOp} {g : RouteGeometry}
    (hsame : t.SameBoards u) (hop : u.session.route? = some op)
    (hcommits : t.Commits c (op.changeset (some g))) (h : u.finishRoute g = .ok t') :
    t.Changes c t' := by
  have hnone := finishRoute_drag? hop h
  obtain ⟨⟨r, v⟩, hcommit, h⟩ := Checked.bind_eq_ok.mp h
  rw [hop, Option.map_some, Option.getD_some] at hcommit
  have hbegun : t.SameBoards (u.mapSession Session.beginFix) :=
    hsame.trans (u.sameBoards_mapSession _)
  have hcommitted := commit_reboards hbegun hcommits hcommit
  refine (hcommitted.trans_same ?_).changes_of_none hnone
  cases r <;> cases h
  · exact v.resume_sameBoards _
  · exact v.finish_sameBoards _

/-- A fix that finishes the route may commit it with the head that the engine has given. -/
theorem commits_finished {t u : Tool} {p : Point} {id : Option ItemId} {finish : Bool}
    {r : RouteRequest} {g : RouteGeometry}
    (hmove : t.moveHead p id ((t.session.route?.map RouteOp.ortho).getD false) = .ok u)
    (hasked : u.session.request? = some r) (hanswer : u.world.route r = .ok (.ok g))
    (hlast : finish = true ∨ g.reachedTarget = true) :
    ∃ op, u.session.route? = some op ∧
      t.Commits (.fixRoute p id finish) (op.changeset (some g)) := by
  obtain ⟨op₁, hop₁, _⟩ := Option.map_eq_some_iff.mp hasked
  obtain ⟨op, hop, hsame⟩ := (moveHead_keepsRoute hmove).route op₁ hop₁
  obtain ⟨hworld, _, hrequest, _⟩ := moveHead_request? hop hmove
  cases hrequest.symm.trans hasked
  rw [hworld] at hanswer
  refine ⟨op₁, hop₁, ?_⟩
  rw [hsame.changeset]
  exact .finished hop hanswer hlast

/-- **Fixing a head** changes the boards when it finishes the route. -/
theorem fixRoute_changes {t t' : Tool} {p : Point} {id : Option ItemId} {finish : Bool}
    (h : t.fixRoute p id finish = .ok t') : t.Changes (.fixRoute p id finish) t' := by
  obtain ⟨u, hmove, houtcome⟩ := fixRoute_eq_ok h
  have hmoved := moveHead_keepsBoards hmove
  cases houtcome with
  | idle _ hsame | bare _ _ _ hsame =>
      rw [hsame]
      exact hmoved.changes _
  | unsolved _ _ hreported =>
      rw [hreported]
      exact (hmoved.trans (u.keepsBoards_report _)).changes _
  | finished hrequest hanswer hlast hfinish =>
      obtain ⟨op, hop, hcommits⟩ := commits_finished hmove hrequest hanswer hlast
      exact finishRoute_changes hmoved.toSameBoards hop hcommits hfinish
  | extended _ _ _ _ _ hextended =>
      rw [hextended]
      refine (hmoved.trans (u.keepsBoards_mapSession (.inl ?_))).changes _
      exact Session.drag?_mapRoute _ _

/-- **Fixing a drag** commits what it displays, if that changed. -/
theorem fixDrag_changes {t t' : Tool} (h : t.fixDrag = .ok t') : t.Changes .fixDrag t' := by
  have hbegun := t.sameBoards_mapSession Session.beginFix
  cases fixDrag_eq_ok h with
  | idle _ hsame =>
      rw [hsame]
      exact (KeepsBoards.refl t).changes _
  | void _ _ hended =>
      rw [hended]
      exact (t.keepsBoards_interaction _ (Interaction.confirms_releasedHost _)
        (.inr (Session.drag?_of_none (Session.operation_finished _ _)))).changes _
  | @committed op _ u hop _ hcommit hended =>
      rw [hended]
      have hcommitted := commit_reboards hbegun (.dragged hop) hcommit
      exact (hcommitted.trans_same (u.finish_sameBoards _)).changes_of_none
        (Session.drag?_of_none (Session.operation_finished _ _))
  | @refused op _ u hop _ hcommit hresumed =>
      rw [hresumed]
      have hcommitted := commit_reboards hbegun (.dragged hop) hcommit
      refine ⟨hcommitted.trans_same (u.resume_sameBoards _), fun op' hop' => ?_⟩
      have hheld : u.session.drag? = some op' := hop'
      rw [commit_session hcommit] at hheld
      exact .kept hheld rfl rfl

/-- An accepted drag that changed something reaches the board. -/
theorem fixDrag_commits {t t' : Tool} {op : DragOp} (hop : t.session.drag? = some op)
    (haccepted : t.board.rejection? (op.drag.changeset op.allowLocked) = none)
    (hsome : (op.drag.changeset op.allowLocked).isEmpty = false) (h : t.fixDrag = .ok t') :
    ∃ report, t.board.commit (op.drag.changeset op.allowLocked) =
      .ok (.applied t'.board report) := by
  cases fixDrag_eq_ok h with
  | idle hnone => cases hnone.symm.trans hop
  | void hop' hempty =>
      cases hop.symm.trans hop'
      cases hempty.symm.trans hsome
  | committed hop' _ hcommit hended | refused hop' _ hcommit hended =>
      cases hop.symm.trans hop'
      rw [hended]
      obtain ⟨report, happlied⟩ :=
        commit_applies (t := t.mapSession Session.beginFix) haccepted hsome hcommit
      exact ⟨report, happlied⟩

/-- **Breaking a track** commits its two halves, if it may. -/
theorem breakTrack_changes {t t' : Tool} {p : Point} (h : t.breakTrack p = .ok t') :
    t.Changes (.breakTrack p) t' := by
  unfold breakTrack at h
  split at h
  · cases h
    exact (KeepsBoards.refl t).changes _
  · next hbusy =>
    obtain ⟨found, _, h⟩ := Checked.bind_eq_ok.mp h
    split at h
    · cases h
      exact (t.keepsBoards_report _).changes _
    · next i _ =>
        have hasked := t.mayChange_keepsBoards i.locked .breakLocked
        have hreleases := t.releases_of_mayChange i.locked .breakLocked
        generalize t.mayChange i.locked .breakLocked = asked at h hasked hreleases
        obtain ⟨u, confirmed⟩ := asked
        cases confirmed with
        | false =>
            cases h
            exact hasked.changes _
        | true =>
            obtain ⟨split?, hsplit, h⟩ := Checked.bind_eq_ok.mp h
            cases split? with
            | none =>
                cases h
                exact hasked.changes _
            | some changes =>
                obtain ⟨⟨r, v⟩, hcommit, h⟩ := Checked.bind_eq_ok.mp h
                have hboard : u.board = t.board := hasked.board
                rw [hboard] at hsplit
                have hcommits : t.Commits (.breakTrack p) changes :=
                  .broken hsplit (by simpa using hbusy) (hreleases rfl)
                have hcommitted := commit_reboards hasked.toSameBoards hcommits hcommit
                have hsession := commit_session hcommit
                refine ⟨hcommitted.trans_same ?_, fun op' hop' => ?_⟩
                · cases r <;> cases h
                  · exact (v.keepsBoards_report _).toSameBoards
                  · exact (KeepsBoards.refl _).toSameBoards
                · have hdrag : v.session.drag? = some op' := by cases r <;> cases h <;> exact hop'
                  rw [hsession] at hdrag
                  exact .kept (hasked.drag op' hdrag) rfl rfl

/-- **Cancelling** commits the fixed steps, and nothing is dragged any more. -/
theorem cancelOperation_changes {t t' : Tool} (ht : t.Orderly) (h : t.cancelOperation = .ok t') :
    t.Changes .cancelOperation t' := by
  obtain ⟨⟨u, stopped⟩, hstop, h⟩ := Checked.bind_eq_ok.mp h
  have hquiet := t.quiet_mapSession (f := fun s => { s with pendingViaTarget := none }) rfl rfl rfl
  have hnone := (stopOperation_advances (hquiet.advances ht).orderly hstop).2
  have hstopped := stopOperation_reboards .cancelOperation hstop
  have hboards : t.Reboards .cancelOperation u := by
    refine ⟨⟨hstopped.options, hstopped.confirms⟩, ?_⟩
    cases hstopped.way with
    | kept hboard hhistory hworld => exact .kept hboard hhistory hworld
    | loaded hboard hframe hhistory hworld => exact .loaded hboard hframe hhistory hworld
    | unloaded _ _ _ hcommand | undone _ _ hcommand _ | redone _ _ hcommand _ => cases hcommand
    | committed hcommits hcommit hhistory hworld =>
        refine .committed ?_ hcommit hhistory hworld
        cases hcommits with
        | staged hop hinterrupts => exact .staged hop hinterrupts
  refine Reboards.changes_of_none (hboards.trans_same ?_) ?_
  · cases stopped <;> cases h
    · exact u.sameBoards_mapSession _
    · exact (KeepsBoards.refl u).toSameBoards
  · cases stopped <;> cases h <;> exact Session.drag?_of_none hnone

/-- **Another operation begins** once the tool is idle, and nothing happens to the boards
after that. -/
structure Begins (t u t' : Tool) : Prop where
  idle : t.makeIdle = .ok u
  same : u.SameBoards t'
  drags : ∀ op', t'.session.drag? = some op' → t.DragsOn t' op'

/-- What begins another operation changes the boards before that at most. -/
theorem Begins.changes {t u t' : Tool} {c : Command} (h : t.Begins u t') (hc : c.Interrupts) :
    t.Changes c t' :=
  ⟨(makeIdle_reboards hc h.idle).trans_same h.same, h.drags⟩

/-- Nothing is dragged when the beginning is refused, or when a route begins. -/
theorem begins_of_none {t u t' : Tool} (hidle : t.makeIdle = .ok u) (hsame : u.SameBoards t')
    (hnone : t'.session.drag? = none) : t.Begins u t' :=
  ⟨hidle, hsame, fun op' hop' => by cases hnone.symm.trans hop'⟩

/-- Starting a route begins another operation. -/
theorem startRouting_begins {t t' : Tool} {p : Point} {id : Option ItemId} (ht : t.Orderly)
    (h : t.startRouting p id = .ok t') : ∃ u, t.Begins u t' := by
  obtain ⟨u, hidle, h⟩ := Checked.bind_eq_ok.mp h
  have hnone := Session.drag?_of_none (makeIdle_advances ht hidle).2
  refine ⟨u, ?_⟩
  simp only at h
  split at h
  · simp only [openRoute] at h
    obtain ⟨start, _, h⟩ := Checked.bind_eq_ok.mp h
    obtain ⟨refusal, _, h⟩ := Checked.bind_eq_ok.mp h
    cases refusal with
    | some reason =>
        cases h
        refine begins_of_none hidle ?_ hnone
        exact u.sameBoards_interaction (Host.confirms_acquire _ _)
    | none =>
        cases h
        refine begins_of_none hidle ?_ rfl
        exact u.sameBoards_interaction
          ((Interaction.confirms_releasedHost _).trans (Host.confirms_acquire _ _))
  · cases h
    exact begins_of_none hidle (u.sameBoards_interaction rfl) hnone

/-- A drag begins on the items that it grabs. -/
theorem beginDrag_begins {t u : Tool} (ht : t.Orderly) (hidle : t.makeIdle = .ok u)
    {grabbed : List Item} (hgrabbed : ∀ i ∈ grabbed, i ∈ u.board.items) (anchor : Point)
    (mode : DragMode) {locked : Bool} (hlocked : locked = false → ∀ i ∈ grabbed, i.locked = false) :
    t.Begins u (u.beginDrag grabbed anchor mode locked) := by
  have hnone := Session.drag?_of_none (makeIdle_advances ht hidle).2
  have hsettings := (makeIdle_reboards .cancelOperation hidle).toSameSettings
  have hasked := u.mayChange_keepsBoards locked .dragLocked
  have hreleases := u.releases_of_mayChange locked .dragLocked
  unfold beginDrag
  generalize u.mayChange locked .dragLocked = asked at hasked hreleases
  obtain ⟨v, confirmed⟩ := asked
  cases confirmed with
  | false =>
      refine ⟨hidle, hasked.toSameBoards, fun op' hop' => ?_⟩
      cases hnone.symm.trans (hasked.drag op' hop')
  | true =>
      refine ⟨hidle, hasked.toSameBoards.trans ?_, fun op' hop' => ?_⟩
      · exact v.sameBoards_interaction
          ((Interaction.confirms_releasedHost _).trans (Host.confirms_acquire _ _))
      · cases hop'
        have hboard : v.board = u.board := hasked.board
        refine .began (fun i hi => hboard ▸ hgrabbed i hi) rfl (fun hallow => ?_) hlocked
        exact hsettings.releases_iff.mp (hreleases rfl hallow)

/-- Grabbing items begins another operation. -/
theorem startDrag_begins {t t' : Tool} {ids : List ItemId} {anchor : Point} {mode : DragMode}
    (ht : t.Orderly) (h : t.startDrag ids anchor mode = .ok t') : ∃ u, t.Begins u t' := by
  obtain ⟨u, hidle, h⟩ := Checked.bind_eq_ok.mp h
  have hnone := Session.drag?_of_none (makeIdle_advances ht hidle).2
  refine ⟨u, ?_⟩
  split at h
  · cases h
    exact begins_of_none hidle (u.keepsBoards_report _).toSameBoards hnone
  · cases h
    refine beginDrag_begins ht hidle (fun i hi => ?_) _ _ (fun hfree => ?_)
    · obtain ⟨id, _, hid⟩ := List.mem_filterMap.mp (cornerHandle_subset hi)
      exact List.mem_of_find?_eq_some hid
    · simpa using hfree

/-- Grabbing a footprint begins another operation. -/
theorem startFootprintDrag_begins {t t' : Tool} {id : FootprintId} {anchor : Point}
    {mode : DragMode} (ht : t.Orderly) (h : t.startFootprintDrag id anchor mode = .ok t') :
    ∃ u, t.Begins u t' := by
  obtain ⟨u, hidle, h⟩ := Checked.bind_eq_ok.mp h
  have hnone := Session.drag?_of_none (makeIdle_advances ht hidle).2
  refine ⟨u, ?_⟩
  split at h
  · cases h
    exact begins_of_none hidle (u.keepsBoards_report _).toSameBoards hnone
  · split at h
    · cases h
      exact begins_of_none hidle (u.keepsBoards_report _).toSameBoards hnone
    · cases h
      refine beginDrag_begins ht hidle (fun i hi => (List.mem_filter.mp hi).1) _ _
        (fun hfree i hi => ?_)
      simp only [Bool.or_eq_false_iff, List.any_eq_false, Bool.not_eq_true] at hfree
      exact hfree.2 i hi

/-- **Moving a drag** keeps the boards, and goes on with the same drag. -/
theorem moveDrag_changes {t t' : Tool} {p : Point} (h : t.moveDrag p = .ok t') :
    t.Changes (.moveDrag p) t' := by
  simp only [moveDrag] at h
  split at h
  · cases h
    exact (t.keepsBoards_mapSession (.inl rfl)).changes _
  · next op hop =>
      obtain ⟨answer, hanswer, h⟩ := Checked.bind_eq_ok.mp h
      split at h
      · cases h
        refine ⟨((t.sameBoards_mapSession _).trans (sameBoards_mapSession _ _)).reboards _,
          fun op' hop' => ?_⟩
        cases hop'
        exact .moved hop hanswer rfl
      · split at h
        · cases h
          exact (t.keepsBoards_mapSession (.inl rfl)).changes _
        · cases h
          refine ⟨SameBoards.reboards ?_ _, fun op' hop' => ?_⟩
          · exact ((t.sameBoards_mapSession _).trans (sameBoards_mapSession _ _)).trans
              (keepsBoards_report _ _).toSameBoards
          cases hop'
          exact .kept hop rfl rfl

/-- A size command loads the board into the engine with other design settings. -/
theorem changeDesign_changes {t t' : Tool} {c : Command} {change : Design → Design}
    (hredesigns : c.Redesigns change) (h : t.changeDesign change = .ok t') : t.Changes c t' := by
  have hkept := refreshHead_keepsBoards h
  refine ⟨Reboards.trans_same ?_ hkept.toSameBoards, fun op' hop' => ?_⟩
  · exact ⟨⟨rfl, rfl⟩, .loaded rfl (hredesigns.sameFrame t.board) rfl rfl⟩
  · have hdrag := hkept.drag op' hop'
    exact .kept ((Session.drag?_mapRoute _ _).symm.trans hdrag) rfl rfl

/-- A size command that checks its values before it changes the settings. -/
theorem checkedDesign_changes {t t' : Tool} {c : Command} {change : Design → Design} {bad : Prop}
    [Decidable bad] {e : RouterError} (hredesigns : c.Redesigns change)
    (h : (if bad then pure (t.report e) else t.changeDesign change) = .ok t') : t.Changes c t' := by
  split at h
  · cases h
    exact (t.keepsBoards_report e).changes c
  · exact changeDesign_changes hredesigns h

/-- Choosing a pair of layers loads the board with that pair into the engine. -/
theorem selectLayerPair_changes (t : Tool) (pair : LayerPair) :
    t.Changes (.selectLayerPair pair) (t.selectLayerPair pair) := by
  unfold selectLayerPair
  split
  · exact (t.keepsBoards_report _).changes _
  · refine ⟨⟨⟨rfl, rfl⟩, .loaded rfl ⟨rfl, rfl, rfl⟩ rfl rfl⟩, fun op' hop' => ?_⟩
    exact .kept ((Session.drag?_mapRoute _ _).symm.trans hop') rfl rfl

/-- Going back takes the board from the history, and leaves the engine its world. -/
theorem undo_changes (t : Tool) : t.Changes .undo t.undo.1 := by
  unfold undo
  split
  · exact (KeepsBoards.refl t).changes _
  · next hbusy =>
      have hidle : t.session.isIdle = true := by simpa using hbusy
      split
      · next hundo =>
          exact ⟨⟨⟨rfl, rfl⟩, .undone hundo rfl rfl hidle⟩, fun _ hop' => .kept hop' rfl rfl⟩
      · exact (KeepsBoards.refl t).changes _

/-- Going forward takes the board from the history, and leaves the engine its world. -/
theorem redo_changes (t : Tool) : t.Changes .redo t.redo.1 := by
  unfold redo
  split
  · exact (KeepsBoards.refl t).changes _
  · next hbusy =>
      have hidle : t.session.isIdle = true := by simpa using hbusy
      split
      · next hredo =>
          exact ⟨⟨⟨rfl, rfl⟩, .redone hredo rfl rfl hidle⟩, fun _ hop' => .kept hop' rfl rfl⟩
      · exact (KeepsBoards.refl t).changes _

/-- **Every command** changes the boards and the drag in one of the listed ways. -/
theorem execute_changes {t t' : Tool} {c : Command} {refusal : Option CommandRefusal}
    (ht : t.Orderly) (h : t.execute c = .ok (t', refusal)) : t.Changes c t' := by
  cases c with
  | startRouting p id =>
      obtain ⟨u, hbegins⟩ := startRouting_begins ht (Checked.of_tagged h)
      exact hbegins.changes (.startRouting p id)
  | moveHead p id ortho => exact (moveHead_keepsBoards (Checked.of_tagged h)).changes _
  | fixRoute p id finish => exact fixRoute_changes (Checked.of_tagged h)
  | undoLastSegment => exact (undoLastSegment_keepsBoards (Checked.of_tagged h)).changes _
  | placeVia v target => exact (placeVia_keepsBoards (Checked.of_tagged h)).changes _
  | switchLayer command => exact (switchLayer_keepsBoards (Checked.of_tagged h)).changes _
  | flipPosture | toggleRounding =>
      refine KeepsBoards.changes ?_ _
      exact (t.keepsBoards_mapSession (.inl rfl)).trans
        (refreshHead_keepsBoards (Checked.of_tagged h))
  | setRouterMode mode => exact (setRouterMode_keepsBoards (Checked.of_tagged h)).changes _
  | setCustomTrackWidth width =>
      exact checkedDesign_changes (.trackWidth width) (Checked.of_tagged h)
  | setCustomViaSize diameter drill =>
      exact checkedDesign_changes (.viaSize diameter drill) (Checked.of_tagged h)
  | setDiffPair width gap viaGap =>
      exact checkedDesign_changes (.diffPair width gap viaGap) (Checked.of_tagged h)
  | useNetClassSizes => exact changeDesign_changes .netClasses (Checked.of_tagged h)
  | selectLayerPair pair =>
      cases h
      exact t.selectLayerPair_changes pair
  | startDrag ids anchor mode =>
      obtain ⟨u, hbegins⟩ := startDrag_begins ht (Checked.of_tagged h)
      exact hbegins.changes (.startDrag ids anchor mode)
  | startFootprintDrag id anchor mode =>
      obtain ⟨u, hbegins⟩ := startFootprintDrag_begins ht (Checked.of_tagged h)
      exact hbegins.changes (.startFootprintDrag id anchor mode)
  | moveDrag p => exact moveDrag_changes (Checked.of_tagged h)
  | fixDrag => exact fixDrag_changes (Checked.of_tagged h)
  | breakTrack p => exact breakTrack_changes (Checked.of_tagged h)
  | cancelOperation => exact cancelOperation_changes ht (Checked.of_tagged h)
  | undo =>
      have hundo := t.undo_changes
      rw [Checked.pure_eq_ok.mp h] at hundo
      exact hundo
  | redo =>
      have hredo := t.redo_changes
      rw [Checked.pure_eq_ok.mp h] at hredo
      exact hredo
  | requestViaTarget viaType =>
      cases h
      exact ((t.keepsBoards_mapSession (.inl rfl)).trans (keepsBoards_notify _ _)).changes _
  | trackCursor | resetSession =>
      cases h
      exact (t.keepsBoards_mapSession (.inl rfl)).changes _
  | clearWorld =>
      cases h
      exact ⟨⟨⟨rfl, rfl⟩, .unloaded rfl rfl rfl rfl⟩, fun _ hop' => .kept hop' rfl rfl⟩
  | syncWorld =>
      cases h
      exact ⟨⟨⟨rfl, rfl⟩, .loaded rfl (Board.SameFrame.refl _) rfl rfl⟩,
        fun _ hop' => .kept hop' rfl rfl⟩

/-- The board on the table, and those in the history. -/
def boards (t : Tool) : List Board := t.board :: (t.history.undoStack ++ t.history.redoStack)

/-- The board on the table is one of the boards. -/
theorem board_mem_boards (t : Tool) : t.board ∈ t.boards := List.mem_cons_self

/-- A new tool has its first board only. -/
theorem eq_of_mem_boards_new {board b : Board} {world : World} {options : Options}
    {rules : RuleSet} {search : TreeSearch} {confirms : Bool}
    (hb : b ∈ (new board world options rules search confirms).boards) : b = board :=
  List.mem_singleton.mp hb

/-- **What holds of all boards** still does after a command when it holds of the board
that the command makes, be it with other design settings or by a commit. -/
theorem Reboards.all_boards {t t' : Tool} {c : Command} {B : Board → Prop}
    (h : t.Reboards c t') (hall : ∀ b ∈ t.boards, B b)
    (hkept : ∀ design, t'.board = { t.board with design := design } →
      t.board.SameFrame t'.board → B t'.board)
    (hcommitted : ∀ changes report, t.Commits c changes →
      t.board.commit changes = .ok (.applied t'.board report) → B t'.board) :
    ∀ b ∈ t'.boards, B b := by
  have hpast (b : Board) (hb : b ∈ t.history.undoStack ++ t.history.redoStack) : B b :=
    hall b (List.mem_cons_of_mem _ hb)
  intro b hb
  cases h.way with
  | kept hboard hhistory | unloaded hboard hhistory =>
      rcases List.mem_cons.mp hb with rfl | hb
      · exact hkept t.board.design hboard (hboard ▸ Board.SameFrame.refl _)
      · exact hpast b (hhistory ▸ hb)
  | loaded hboard hframe hhistory =>
      rcases List.mem_cons.mp hb with rfl | hb
      · exact hkept _ hboard hframe
      · exact hpast b (hhistory ▸ hb)
  | committed hcommits hcommit hrecord =>
      rcases List.mem_cons.mp hb with rfl | hb
      · exact hcommitted _ _ hcommits hcommit
      · rcases History.mem_of_record hrecord hb with rfl | hb
        · exact hall t.board t.board_mem_boards
        · exact hpast b hb
  | undone hundo =>
      obtain ⟨hback, hrest⟩ := History.mem_of_undo hundo
      rcases List.mem_cons.mp hb with rfl | hb
      · exact hpast _ (List.mem_append_left _ hback)
      · rcases hrest b hb with rfl | hb
        · exact hall t.board t.board_mem_boards
        · exact hpast b hb
  | redone hredo =>
      obtain ⟨hforth, hrest⟩ := History.mem_of_redo hredo
      rcases List.mem_cons.mp hb with rfl | hb
      · exact hpast _ (List.mem_append_right _ hforth)
      · rcases hrest b hb with rfl | hb
        · exact hall t.board t.board_mem_boards
        · exact hpast b hb

/-- Most often it matters only which items the board keeps. -/
theorem Reboards.forall_boards {t t' : Tool} {c : Command} {B : Board → Prop}
    (h : t.Reboards c t') (hall : ∀ b ∈ t.boards, B b)
    (hkept : t'.board.items = t.board.items → t.board.SameFrame t'.board → B t'.board)
    (hcommitted : ∀ changes report, t.Commits c changes →
      t.board.commit changes = .ok (.applied t'.board report) → B t'.board) :
    ∀ b ∈ t'.boards, B b :=
  h.all_boards hall (fun _ hboard hframe => hkept (by rw [hboard]) hframe) hcommitted

/-- The engine keeps its world, loses it, or loads the board. -/
theorem Reboards.world {t t' : Tool} {c : Command} (h : t.Reboards c t') :
    t'.world = t.world ∨ t'.world = none ∨ t'.world = some t'.board := by
  cases h.way with
  | kept _ _ hworld | undone _ hworld | redone _ hworld => exact .inl hworld
  | unloaded _ _ hworld => exact .inr (.inl hworld)
  | loaded _ _ _ hworld | committed _ _ _ hworld => exact .inr (.inr hworld)

end Tool

end CopperRoute
