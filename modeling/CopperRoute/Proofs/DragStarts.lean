import CopperRoute.Proofs.FaithfulDrags

/-!
# How the running drag began

A drag begins with what its command grabs on the board of that time (`DragStart`).  It goes on
through many turns, in which the pointer moves, and design settings and the engine's world may
change; and another drag may begin in its place.  The latest beginning can be read off from the
turns so far (`Tool.latestStart`).

Whatever the turns do, this beginning fits the drag that runs: the drag still holds what was
grabbed then, and the board has got other design settings at most (`Tool.Remembers`).  So what a
turn does to a drag can be stated in terms of its beginning (`Tool.ServingSince`).
-/

namespace CopperRoute

/-- What a command grabs on a board, if it begins a drag: a selection, of a plain corner only its
handle, or the pads of a footprint. -/
def Command.grabs? (b : Board) : Command → Option (List Item)
  | startDrag ids _ _ => some (cornerHandle (ids.filterMap b.item?))
  | startFootprintDrag id _ _ => some (b.itemsOf id)
  | _ => none

/-- **The beginning of a drag**: the board at that time, and what was grabbed. -/
structure DragStart where
  board : Board
  grabbed : List Item
  deriving DecidableEq, Repr, Inhabited

/-- The latest beginning behind a command that left this tool. -/
def DragStart.after (s : DragStart) (c : Command) (t' : Tool) : DragStart :=
  match c.grabs? t'.board with
  | some grabbed => ⟨t'.board, grabbed⟩
  | none => s

namespace Tool

variable {t t' : Tool} {c : Command} {s : DragStart} {refusal : Option CommandRefusal}

/-- A drag that runs afterwards has grabbed what one had that ran before. -/
def HoldsOn (t t' : Tool) : Prop := ∀ op', t'.session.drag? = some op' →
  ∃ op, t.session.drag? = some op ∧ op'.drag.grabbed = op.drag.grabbed

/-- Without a drag there is nothing to hold on to. -/
theorem holdsOn_of_none (hnone : t'.session.drag? = none) : t.HoldsOn t' :=
  fun op' hop' => by cases hnone.symm.trans hop'

/-- What keeps the boards holds on to the drag. -/
theorem KeepsBoards.holdsOn (h : t.KeepsBoards t') : t.HoldsOn t' :=
  fun op' hop' => ⟨op', h.drag op' hop', rfl⟩

/-- A drag that stays is held on to. -/
theorem holdsOn_of_session (h : t'.session.drag? = t.session.drag?) : t.HoldsOn t' :=
  fun op' hop' => ⟨op', h ▸ hop', rfl⟩

/-- A command that needs an idle tool does not touch the session. -/
theorem holdsOn_of_untouched (h : t' = t ∨ (t.session.isIdle = true ∧ t'.session = t.session)) :
    t.HoldsOn t' := by
  rcases h with rfl | ⟨_, hsame⟩
  · exact (KeepsBoards.refl _).holdsOn
  · exact holdsOn_of_session (congrArg Session.drag? hsame)

/-- Fixing a head begins no drag. -/
theorem fixRoute_holdsOn {p : Point} {id : Option ItemId} {finish : Bool}
    (h : t.fixRoute p id finish = .ok t') : t.HoldsOn t' := by
  obtain ⟨u, hmove, houtcome⟩ := fixRoute_eq_ok h
  have hmoved := moveHead_keepsBoards hmove
  cases houtcome with
  | idle _ hsame | bare _ _ _ hsame =>
      rw [hsame]
      exact hmoved.holdsOn
  | unsolved _ _ hreported =>
      rw [hreported]
      exact (hmoved.trans (u.keepsBoards_report _)).holdsOn
  | extended _ _ _ _ _ hextended =>
      rw [hextended]
      exact (hmoved.trans (u.keepsBoards_mapSession (.inl (Session.drag?_mapRoute _ _)))).holdsOn
  | finished hrequest _ _ hfinish =>
      obtain ⟨op, hop, _⟩ := Option.map_eq_some_iff.mp hrequest
      exact holdsOn_of_none (finishRoute_drag? hop hfinish)

/-- A drag that is fixed ends, or stays as it is. -/
theorem fixDrag_holdsOn (h : t.fixDrag = .ok t') : t.HoldsOn t' := by
  cases fixDrag_eq_ok h with
  | idle _ hsame =>
      rw [hsame]
      exact (KeepsBoards.refl t).holdsOn
  | void _ _ hended | committed _ _ _ hended =>
      rw [hended]
      exact holdsOn_of_none (Session.drag?_of_none (Session.operation_finished _ _))
  | refused _ _ hcommit hresumed =>
      rw [hresumed, (commit_refused hcommit).1]
      exact holdsOn_of_session rfl

/-- **A drag that moves** holds on to what it grabbed. -/
theorem moveDrag_holdsOn {p : Point} (h : t.moveDrag p = .ok t') : t.HoldsOn t' := by
  simp only [moveDrag] at h
  split at h
  · cases h
    exact (t.keepsBoards_mapSession (.inl rfl)).holdsOn
  · next op hop =>
      obtain ⟨answer, hanswer, h⟩ := Checked.bind_eq_ok.mp h
      split at h
      · cases h
        rintro op' ⟨⟩
        exact ⟨op, hop, (Drag.moveTo_answer hanswer).1⟩
      · split at h
        · cases h
          exact (t.keepsBoards_mapSession (.inl rfl)).holdsOn
        · cases h
          rintro op' ⟨⟩
          exact ⟨op, hop, rfl⟩

/-- A route that begins leaves no drag. -/
theorem startRouting_drag? {p : Point} {id : Option ItemId} (ht : t.Orderly)
    (h : t.startRouting p id = .ok t') : t'.session.drag? = none := by
  obtain ⟨u, hidle, h⟩ := Checked.bind_eq_ok.mp h
  have hnone := Session.drag?_of_none (makeIdle_advances ht hidle).2
  simp only at h
  split at h
  · simp only [openRoute] at h
    obtain ⟨start, _, h⟩ := Checked.bind_eq_ok.mp h
    obtain ⟨refusal, _, h⟩ := Checked.bind_eq_ok.mp h
    cases refusal with
    | some reason =>
        cases h
        exact hnone
    | none =>
        cases h
        rfl
  · cases h
    exact hnone

/-- After cancelling nothing is dragged. -/
theorem cancelOperation_drag? (ht : t.Orderly) (h : t.cancelOperation = .ok t') :
    t'.session.drag? = none := by
  have hidle := cancelOperation_isIdle ht h
  exact Session.drag?_of_none ((cancelOperation_advances ht h).orderly.operation_of_idle hidle)

/-- Changing the design settings holds on to the drag. -/
theorem changeDesign_holdsOn {change : Design → Design} (h : t.changeDesign change = .ok t') :
    t.HoldsOn t' := by
  intro op' hop'
  have hdrag := (refreshHead_keepsBoards h).drag op' hop'
  exact ⟨op', (Session.drag?_mapRoute _ _).symm.trans hdrag, rfl⟩

/-- A size command that checks its values before it changes the settings. -/
theorem checkedDesign_holdsOn {change : Design → Design} {bad : Prop} [Decidable bad]
    {e : RouterError}
    (h : (if bad then pure (t.report e) else t.changeDesign change) = .ok t') : t.HoldsOn t' := by
  split at h
  · cases h
    exact (t.keepsBoards_report e).holdsOn
  · exact changeDesign_holdsOn h

/-- Choosing a pair of layers holds on to the drag. -/
theorem selectLayerPair_holdsOn (t : Tool) (pair : LayerPair) :
    t.HoldsOn (t.selectLayerPair pair) := by
  unfold selectLayerPair
  split
  · exact (t.keepsBoards_report _).holdsOn
  · exact holdsOn_of_session (Session.drag?_mapRoute _ _)

/-- **Every command that begins no drag** lets a drag hold on, or ends it. -/
theorem execute_holdsOn (ht : t.Orderly) (hc : c.grabs? t'.board = none)
    (h : t.execute c = .ok (t', refusal)) : t.HoldsOn t' := by
  cases c with
  | startDrag | startFootprintDrag => cases hc
  | startRouting => exact holdsOn_of_none (startRouting_drag? ht (Checked.of_tagged h))
  | cancelOperation => exact holdsOn_of_none (cancelOperation_drag? ht (Checked.of_tagged h))
  | moveHead => exact (moveHead_keepsBoards (Checked.of_tagged h)).holdsOn
  | fixRoute => exact fixRoute_holdsOn (Checked.of_tagged h)
  | undoLastSegment => exact (undoLastSegment_keepsBoards (Checked.of_tagged h)).holdsOn
  | placeVia => exact (placeVia_keepsBoards (Checked.of_tagged h)).holdsOn
  | switchLayer => exact (switchLayer_keepsBoards (Checked.of_tagged h)).holdsOn
  | flipPosture | toggleRounding =>
      exact ((t.keepsBoards_mapSession (.inl rfl)).trans
        (refreshHead_keepsBoards (Checked.of_tagged h))).holdsOn
  | setRouterMode => exact (setRouterMode_keepsBoards (Checked.of_tagged h)).holdsOn
  | setCustomTrackWidth | setCustomViaSize | setDiffPair =>
      exact checkedDesign_holdsOn (Checked.of_tagged h)
  | useNetClassSizes => exact changeDesign_holdsOn (Checked.of_tagged h)
  | selectLayerPair pair =>
      cases h
      exact t.selectLayerPair_holdsOn pair
  | moveDrag => exact moveDrag_holdsOn (Checked.of_tagged h)
  | fixDrag => exact fixDrag_holdsOn (Checked.of_tagged h)
  | breakTrack => exact holdsOn_of_untouched (breakTrack_session (Checked.of_tagged h))
  | undo =>
      have hundo := t.undo_session
      rw [Checked.pure_eq_ok.mp h] at hundo
      exact holdsOn_of_untouched hundo
  | redo =>
      have hredo := t.redo_session
      rw [Checked.pure_eq_ok.mp h] at hredo
      exact holdsOn_of_untouched hredo
  | requestViaTarget | trackCursor | resetSession | clearWorld | syncWorld =>
      cases h
      exact holdsOn_of_session rfl

/-- A drag that was just begun starts from these items, on the board as it was. -/
theorem beginDrag_starts (hnone : t.session.drag? = none) {grabbed : List Item} {anchor : Point}
    {mode : DragMode} {locked : Bool} {op' : DragOp}
    (hop' : (t.beginDrag grabbed anchor mode locked).session.drag? = some op') :
    (∃ routerMode, op'.drag = .start grabbed anchor mode routerMode) ∧
      (t.beginDrag grabbed anchor mode locked).board = t.board := by
  have hasked := t.mayChange_keepsBoards locked .dragLocked
  unfold beginDrag at hop' ⊢
  generalize t.mayChange locked .dragLocked = asked at hasked hop'
  obtain ⟨u, confirmed⟩ := asked
  cases confirmed with
  | false => cases hnone.symm.trans (hasked.drag op' hop')
  | true =>
      cases hop'
      exact ⟨⟨_, rfl⟩, hasked.board⟩

/-- **A drag starts** with the corner of the items that were grabbed. -/
theorem startDrag_starts {ids : List ItemId} {anchor : Point} {mode : DragMode} {op' : DragOp}
    (ht : t.Orderly) (h : t.startDrag ids anchor mode = .ok t')
    (hop' : t'.session.drag? = some op') :
    ∃ routerMode, op'.drag =
      .start (cornerHandle (ids.filterMap t'.board.item?)) anchor mode routerMode := by
  obtain ⟨u, hidle, h⟩ := Checked.bind_eq_ok.mp h
  have hnone := Session.drag?_of_none (makeIdle_advances ht hidle).2
  split at h
  · cases h
    cases hnone.symm.trans hop'
  · cases h
    obtain ⟨hstart, hboard⟩ := beginDrag_starts hnone hop'
    rw [hboard]
    exact hstart

/-- The pads of a footprint move by any angle. -/
theorem startFootprintDrag_starts {id : FootprintId} {anchor : Point} {mode : DragMode}
    {op' : DragOp} (ht : t.Orderly) (h : t.startFootprintDrag id anchor mode = .ok t')
    (hop' : t'.session.drag? = some op') :
    ∃ routerMode, op'.drag =
      .start (t'.board.itemsOf id) anchor (mode.union .freeAngle) routerMode := by
  obtain ⟨u, hidle, h⟩ := Checked.bind_eq_ok.mp h
  have hnone := Session.drag?_of_none (makeIdle_advances ht hidle).2
  split at h
  · cases h
    cases hnone.symm.trans hop'
  · split at h
    · cases h
      cases hnone.symm.trans hop'
    · cases h
      obtain ⟨hstart, hboard⟩ := beginDrag_starts hnone hop'
      rw [hboard]
      exact hstart

/-- **A drag that a command begins** has grabbed what the command grabs on the board that it
leaves. -/
theorem execute_grabs {grabbed : List Item} {op' : DragOp} (ht : t.Orderly)
    (hc : c.grabs? t'.board = some grabbed) (h : t.execute c = .ok (t', refusal))
    (hop' : t'.session.drag? = some op') : op'.drag.grabbed = grabbed := by
  cases c with
  | startDrag =>
      cases hc
      obtain ⟨routerMode, hstart⟩ := startDrag_starts ht (Checked.of_tagged h) hop'
      rw [hstart]
      rfl
  | startFootprintDrag =>
      cases hc
      obtain ⟨routerMode, hstart⟩ := startFootprintDrag_starts ht (Checked.of_tagged h) hop'
      rw [hstart]
      rfl
  | _ => cases hc

/-- **The beginning of the running drag is remembered**: it holds what was grabbed then, and the
board is the one from then but for its design settings. -/
def Remembers (t : Tool) (s : DragStart) : Prop := ∀ op, t.session.drag? = some op →
  op.drag.grabbed = s.grabbed ∧ t.board = { s.board with design := t.board.design }

/-- **Every command** leaves it so. -/
theorem execute_remembers (ht : t.Orderly) (hs : t.Remembers s)
    (h : t.execute c = .ok (t', refusal)) : t'.Remembers (s.after c t') := by
  intro op' hop'
  unfold DragStart.after
  cases hgrabs : c.grabs? t'.board with
  | some grabbed => exact ⟨execute_grabs ht hgrabs h hop', rfl⟩
  | none =>
      obtain ⟨op, hop, hsame⟩ := execute_holdsOn ht hgrabs h op' hop'
      obtain ⟨hgrabbed, hboard⟩ := hs op hop
      refine ⟨hsame.trans hgrabbed, ?_⟩
      rw [board_of_dragging ht hop hop' h, hboard]

/-- The latest beginning of a drag behind turns. -/
def latestStart (s : DragStart) (t : Tool) : List Turn → DragStart
  | [] => s
  | k :: ks =>
    match t.turn k with
    | .ok u => u.latestStart (s.after k.command u) ks
    | .error _ => s

/-- `R` relates the tools before and after every turn, and the latest beginning of a drag before
it. -/
def ThroughoutSince (R : DragStart → Tool → Command → Tool → Prop) (s : DragStart) (t : Tool) :
    List Turn → Prop
  | [] => True
  | k :: ks => ∀ u, t.turn k = .ok u →
      R s (t.ready k) k.command u ∧ u.ThroughoutSince R (s.after k.command u) ks

/-- The same of every turn of a service. -/
def ServingSince (R : DragStart → Tool → Command → Tool → Prop) (s : DragStart) (t : Tool) :
    List Occasion → Prop
  | [] => True
  | o :: os => ∀ out, t.attend o = .ok out →
      (t.prompted o).ThroughoutSince R s ((t.prompted o).turnsFor out.commands) ∧
        out.tool.ServingSince R
          ((t.prompted o).latestStart s ((t.prompted o).turnsFor out.commands)) os

/-- The beginning is remembered behind turns. -/
theorem run_remembers {ks : List Turn} (ht : t.Orderly) (hs : t.Remembers s)
    (h : t.run ks = .ok t') : t'.Remembers (t.latestStart s ks) := by
  induction ks generalizing t s with
  | nil =>
      cases h
      exact hs
  | cons k ks ih =>
      obtain ⟨u, hturn, hrest⟩ := run_cons_eq_ok.mp h
      obtain ⟨refusal, hexecute⟩ := turn_eq_ok.mp hturn
      rw [latestStart, hturn]
      exact ih (turn_advances ht hturn).orderly (execute_remembers (ht.ready k) hs hexecute) hrest

section Induction

variable {bad : Tool → Command → Prop} {J : Tool → Prop}
  {R : DragStart → Tool → Command → Tool → Prop}

/-- What an invariant of the turns that are not bad, and the remembered beginning, yield for each
of these turns. -/
theorem throughoutSince_of_avoids (horderly : ∀ t, J t → t.Orderly)
    (hturn : ∀ t k t', J t → ¬ bad (t.ready k) k.command → t.turn k = .ok t' → J t')
    (hstep : ∀ s t k t', J t → t.Remembers s → ¬ bad (t.ready k) k.command →
      t.turn k = .ok t' → R s (t.ready k) k.command t')
    {ks : List Turn} (hJ : J t) (hs : t.Remembers s) (havoids : t.Avoids bad ks) :
    t.ThroughoutSince R s ks := by
  induction ks generalizing t s with
  | nil => trivial
  | cons k ks ih =>
      intro u hu
      obtain ⟨hgood, hrest⟩ := havoids u hu
      obtain ⟨refusal, hexecute⟩ := turn_eq_ok.mp hu
      have hnext := execute_remembers ((horderly t hJ).ready k) hs hexecute
      exact ⟨hstep s t k u hJ hs hgood hu, ih (hturn t k u hJ hgood hu) hnext hrest⟩

/-- **Induction over services**, with the beginning of the running drag in mind. -/
theorem servingSince_of_avoids (horderly : ∀ t, J t → t.Orderly)
    (hprompt : ∀ t o, J t → J (t.prompted o))
    (hturn : ∀ t k t', J t → ¬ bad (t.ready k) k.command → t.turn k = .ok t' → J t')
    (hstep : ∀ s t k t', J t → t.Remembers s → ¬ bad (t.ready k) k.command →
      t.turn k = .ok t' → R s (t.ready k) k.command t')
    {os : List Occasion} (hJ : J t) (hs : t.Remembers s) (havoids : t.Serving (Avoids bad) os) :
    t.ServingSince R s os := by
  induction os generalizing t s with
  | nil => trivial
  | cons o os ih =>
      intro out hattend
      obtain ⟨hgood, hrest⟩ := havoids out hattend
      have hprompted := hprompt t o hJ
      have hrun := attend_run hattend
      refine ⟨throughoutSince_of_avoids horderly hturn hstep hprompted hs hgood, ih ?_ ?_ hrest⟩
      · exact hgood.invariant hturn hprompted hrun
      · exact run_remembers (horderly _ hprompted) hs hrun

end Induction

end Tool

end CopperRoute
