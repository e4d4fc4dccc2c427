import CopperRoute.Proofs.Rest

/-!
# The lifecycle of operations

The commands that are not quiet (`Command.Transits`) start, fix or break off an operation.
Each is a walk of known length, put together from the few functions of the session that
enter a new state.  So every command leads from rest to rest by at most four transitions
(`Tool.execute_advances`), and a tool that begins at rest is at rest after every run: it
holds the host's edit block while an operation runs, and no longer.
-/

namespace CopperRoute

/-- The commands that can take the session to another state. -/
inductive Command.Transits : Command → Prop
  | startRouting (p : Point) (id : Option ItemId) : Transits (.startRouting p id)
  | startDrag (ids : List ItemId) (anchor : Point) (mode : DragMode) :
      Transits (.startDrag ids anchor mode)
  | startFootprintDrag (id : FootprintId) (anchor : Point) (mode : DragMode) :
      Transits (.startFootprintDrag id anchor mode)
  | fixRoute (p : Point) (id : Option ItemId) (finish : Bool) : Transits (.fixRoute p id finish)
  | fixDrag : Transits .fixDrag
  | cancelOperation : Transits .cancelOperation

/-- An operation that runs is broken off in two transitions. -/
theorem Session.walk_brokenOff {s : Session} (hrest : s.state = s.operation.restState)
    (hrun : s.operation.isNone = false) :
    s.Walk [(s.state, .cancelled), (.cancelled, .idle)] s.brokenOff := by
  have hlegal : (s.state, SessionState.cancelled) ∈ SessionState.transitions := by
    rw [hrest]
    exact (Operation.legal_of_run hrun).1
  refine ⟨⟨rfl, hlegal, rfl, by decide, rfl⟩, ?_⟩
  by_cases hnew : s.committed = 0 <;> simp [brokenOff, enter, hnew]

/-- What is broken off is gone. -/
theorem Session.operation_brokenOff (s : Session) : s.brokenOff.operation = .none := by
  by_cases hnew : s.committed = 0 <;> simp [brokenOff, enter, hnew]

/-- A finished session has no operation. -/
theorem Session.operation_finished (s : Session) (committed : Bool) :
    (s.finished committed).operation = .none := by
  cases committed <;> rfl

/-- Behind a cancelled operation there is none. -/
theorem Interaction.operation_cancel (i : Interaction) : i.cancel.1.session.operation = .none := by
  unfold Interaction.cancel
  split
  · next hnone => exact Operation.eq_none_of_restState (Operation.isNone_iff.mp hnone)
  · exact i.session.operation_brokenOff

namespace Tool

/-- A tool whose operation is gone is at rest in the idle state, once its host is
released. -/
theorem orderly_of_none {t : Tool} (hstate : t.session.state = .idle)
    (hop : t.session.operation = .none) (hhost : t.host.Holds false) : t.Orderly := by
  refine ⟨?_, ?_⟩
  · rw [hstate, hop]
    rfl
  · rw [hop]
    exact hhost

/-- At rest an idle tool has no operation. -/
theorem Orderly.operation_of_idle {t : Tool} (ht : t.Orderly)
    (hidle : t.session.isIdle = true) : t.session.operation = .none := by
  have hstate : t.session.state = .idle := by simpa [Session.isIdle] using hidle
  exact Operation.eq_none_of_restState (ht.rest.symm.trans hstate)

/-- The host of an orderly tool is free once the operation has let go of it. -/
theorem Orderly.holds_released {t : Tool} (ht : t.Orderly) :
    t.toInteraction.releasedHost.Holds false := by
  have hold := ht.hold
  unfold Interaction.releasedHost
  cases hnone : t.session.operation.isNone with
  | true => simpa [hnone] using hold
  | false =>
      rw [hnone] at hold
      exact hold.release

/-- Breaking off leads to the idle state, whether an operation ran or not. -/
theorem cancel_advances {t : Tool} (ht : t.Orderly) :
    t.Advances 2 { t with toInteraction := t.toInteraction.cancel.1 } ∧
      t.toInteraction.cancel.1.session.operation = .none := by
  refine ⟨?_, t.toInteraction.operation_cancel⟩
  unfold Interaction.cancel
  cases hnone : t.session.operation.isNone with
  | true => exact ((Quiet.refl t).advances ht).mono (by omega)
  | false =>
      have hwalk := Session.walk_brokenOff ht.rest hnone
      refine ⟨orderly_of_none rfl t.session.operation_brokenOff ht.holds_released, _, ?_, hwalk⟩
      simp

/-- Stopping an operation takes two transitions at most, and none is left running. -/
theorem stopOperation_advances {t t' : Tool} {stopped : Bool} (ht : t.Orderly)
    (h : t.stopOperation = .ok (t', stopped)) :
    t.Advances 2 t' ∧ t'.session.operation = .none := by
  obtain ⟨u, hstaged, h⟩ := Checked.bind_eq_ok.mp h
  have hquiet := commitStaged_quiet hstaged
  have hcancel := fun hu => cancel_advances (t := u) hu
  generalize u.toInteraction.cancel = c at h hcancel
  obtain ⟨i, stopped'⟩ := c
  cases h
  exact ⟨hquiet.trans_advances ht fun hu => (hcancel hu).1,
    (hcancel (hquiet.advances ht).orderly).2⟩

/-- Making room for another operation takes two transitions at most. -/
theorem makeIdle_advances {t t' : Tool} (ht : t.Orderly) (h : t.makeIdle = .ok t') :
    t.Advances 2 t' ∧ t'.session.operation = .none := by
  unfold makeIdle at h
  split at h
  · next hidle =>
      cases h
      exact ⟨((Quiet.refl t).advances ht).mono (by omega),
        ht.operation_of_idle hidle⟩
  · obtain ⟨⟨u, stopped⟩, hstop, h⟩ := Checked.bind_eq_ok.mp h
    cases h
    exact stopOperation_advances ht hstop

/-- Cancelling takes two transitions at most. -/
theorem cancelOperation_advances {t t' : Tool} (ht : t.Orderly) (h : t.cancelOperation = .ok t') :
    t.Advances 2 t' := by
  obtain ⟨⟨u, stopped⟩, hstop, h⟩ := Checked.bind_eq_ok.mp h
  refine (t.quiet_mapSession (f := fun s => { s with pendingViaTarget := none })
    rfl rfl rfl).trans_advances ht fun hu => ?_
  have hstopped := (stopOperation_advances hu hstop).1
  cases stopped with
  | true =>
      cases h
      exact hstopped
  | false =>
      cases h
      exact hstopped.trans_quiet (u.quiet_mapSession (f := Session.markExit) rfl rfl rfl)

/-- The session of an orderly tool takes up a fix of the operation that runs. -/
theorem Orderly.walk_beginFix {t : Tool} (ht : t.Orderly)
    (hrun : t.session.operation.isNone = false) :
    t.session.Walk [(t.session.state, .fixing)] t.session.beginFix := by
  refine ⟨⟨rfl, ?_, rfl⟩, rfl⟩
  rw [ht.rest]
  exact (Operation.legal_of_run hrun).2.1

/-- A fix that goes back to the operation makes two transitions. -/
theorem Orderly.walk_resume {t : Tool} (ht : t.Orderly)
    (hrun : t.session.operation.isNone = false) :
    t.session.Walk [(t.session.state, .fixing), (.fixing, t.session.state)]
      t.session.beginFix.resume := by
  refine (ht.walk_beginFix hrun).trans (.enter rfl ?_)
  show (SessionState.fixing, t.session.state) ∈ _
  rw [ht.rest]
  exact (Operation.legal_of_run hrun).2.2

/-- A fix that ends the operation leads to the idle state. -/
theorem Orderly.finish_advances {t u : Tool} (ht : t.Orderly)
    (hrun : t.session.operation.isNone = false) (hsession : u.session = t.session.beginFix)
    (hhost : t.host.Told u.host) (committed : Bool) :
    t.Advances 2 { u with toInteraction := u.toInteraction.finish committed } := by
  have hfinish : t.session.beginFix.Walk [(.fixing, .idle)] (u.session.finished committed) := by
    rw [hsession]
    cases committed <;> exact ⟨⟨rfl, by decide, rfl⟩, rfl⟩
  have hheld := hhost.holds ht.hold
  refine ⟨orderly_of_none rfl (Session.operation_finished _ _) ?_, _, ?_,
    (ht.walk_beginFix hrun).trans hfinish⟩
  · show u.toInteraction.releasedHost.Holds false
    unfold Interaction.releasedHost
    have hnone : u.session.operation.isNone = false := by rw [hsession]; exact hrun
    rw [hrun] at hheld
    rw [hnone]
    exact hheld.release
  · simp

/-- A fix that does not end it leads back to where it began. -/
theorem Orderly.resume_advances {t u : Tool} (ht : t.Orderly)
    (hrun : t.session.operation.isNone = false) (hsession : u.session = t.session.beginFix)
    (hhost : t.host.Told u.host) : t.Advances 2 (u.mapSession Session.resume) := by
  have hwalk := ht.walk_resume hrun
  refine ⟨⟨?_, ?_⟩, [(t.session.state, .fixing), (.fixing, t.session.state)], ?_, ?_⟩
  · show u.session.resume.state = u.session.operation.restState
    rw [hsession]
    exact ht.rest
  · show u.host.Holds (!u.session.operation.isNone)
    rw [hsession]
    exact hhost.holds ht.hold
  · simp
  · show t.session.Walk _ u.session.resume
    rw [hsession]
    exact hwalk

/-- **A fix that is committed** ends the operation or goes back to it. -/
theorem Orderly.commit_advances {t u : Tool} {c : Changeset}
    {r : Except CommitRejection CommitReport} (ht : t.Orderly)
    (hrun : t.session.operation.isNone = false)
    (hcommit : (t.mapSession Session.beginFix).commit c = .ok (r, u)) :
    (∀ committed, t.Advances 2 { u with toInteraction := u.toInteraction.finish committed }) ∧
      ∀ e, t.Advances 2 ((u.report e).mapSession Session.resume) := by
  have hsession := commit_session hcommit
  have hhost := (commit_quiet hcommit).host
  refine ⟨fun committed => ht.finish_advances hrun hsession hhost committed, fun e => ?_⟩
  exact ht.resume_advances (u := u.report e) hrun hsession (hhost.trans (Host.told_notify _ _))

/-- A tool with a running route is not idle. -/
theorem Orderly.busy {t : Tool} {op : RouteOp} (ht : t.Orderly) (hop : t.session.route? = some op) :
    t.session.isIdle = false := by
  have hrest := ht.rest
  rw [Session.route?_eq_some.mp hop] at hrest
  rw [Session.isIdle, hrest]
  rfl

/-- A session that routes has an operation. -/
theorem isNone_of_route? {s : Session} {op : RouteOp} (hop : s.route? = some op) :
    s.operation.isNone = false := by
  rw [Session.route?_eq_some.mp hop]
  rfl

/-- A session that drags has an operation. -/
theorem isNone_of_drag? {s : Session} {op : DragOp} (hop : s.drag? = some op) :
    s.operation.isNone = false := by
  rw [Session.drag?_eq_some.mp hop]
  rfl

/-- Finishing a route takes two transitions at most. -/
theorem finishRoute_advances {t t' : Tool} {g : RouteGeometry} (ht : t.Orderly)
    (hrun : t.session.operation.isNone = false) (h : t.finishRoute g = .ok t') :
    t.Advances 2 t' := by
  obtain ⟨⟨r, u⟩, hcommit, h⟩ := Checked.bind_eq_ok.mp h
  obtain ⟨hfinish, hresume⟩ := ht.commit_advances hrun hcommit
  cases r with
  | ok report =>
      cases h
      exact hfinish _
  | error reason =>
      cases h
      exact hresume _

/-- Fixing a step of a route makes the same transitions as a fix that comes to
nothing. -/
theorem extendRoute_advances {t : Tool} {g : RouteGeometry} (ht : t.Orderly)
    (hrun : t.session.operation.isNone = false) :
    t.Advances 2 (t.mapSession fun s => s.extendRoute g) := by
  have hresume := ht.resume_advances (u := t.mapSession Session.beginFix) hrun rfl
    (Host.Told.refl _)
  have hquiet : (t.mapSession fun s => s.beginFix.resume).Quiet
      (t.mapSession fun s => s.extendRoute g) := by
    refine ⟨?_, ?_, ?_, Host.Told.refl _⟩ <;>
      simp [mapSession, Session.extendRoute, Session.resume, Session.enter, restState_mapRoute]
  exact hresume.trans_quiet hquiet

/-- Fixing a head takes two transitions at most, whether the route ends or goes on. -/
theorem fixRoute_advances {t t' : Tool} {p : Point} {id : Option ItemId} {finish : Bool}
    (ht : t.Orderly) (h : t.fixRoute p id finish = .ok t') : t.Advances 2 t' := by
  obtain ⟨u, hmove, houtcome⟩ := fixRoute_eq_ok h
  refine (moveHead_quiet hmove).trans_advances ht fun hu => ?_
  have hrun {r : RouteRequest} (hrequest : u.session.request? = some r) :
      u.session.operation.isNone = false := by
    obtain ⟨op, hop, _⟩ := Option.map_eq_some_iff.mp hrequest
    exact isNone_of_route? hop
  cases houtcome with
  | idle _ hsame | bare _ _ _ hsame =>
      rw [hsame]
      exact ((Quiet.refl _).advances hu).mono (by omega)
  | unsolved _ _ hreported =>
      rw [hreported]
      exact ((quiet_report _ _).advances hu).mono (by omega)
  | finished hrequest _ _ hfinish => exact finishRoute_advances hu (hrun hrequest) hfinish
  | extended hrequest _ _ _ _ hextended =>
      rw [hextended]
      exact extendRoute_advances hu (hrun hrequest)

/-- Committing a drag ends it, or goes back to it. -/
theorem fixDrag_advances {t t' : Tool} (ht : t.Orderly) (h : t.fixDrag = .ok t') :
    t.Advances 2 t' := by
  cases fixDrag_eq_ok h with
  | idle _ hsame =>
      rw [hsame]
      exact ((Quiet.refl _).advances ht).mono (by omega)
  | void hop _ hended =>
      rw [hended]
      exact ht.finish_advances (u := t.mapSession Session.beginFix) (isNone_of_drag? hop) rfl
        (Host.Told.refl _) _
  | committed hop _ hcommit hended =>
      rw [hended]
      exact (ht.commit_advances (isNone_of_drag? hop) hcommit).1 _
  | refused hop _ hcommit hresumed =>
      rw [hresumed]
      exact (ht.commit_advances (isNone_of_drag? hop) hcommit).2 _

/-- At rest a start can be prepared. -/
theorem Orderly.walk_prepare {t : Tool} (ht : t.Orderly) (hnone : t.session.operation = .none)
    (p : Point) : t.session.Walk [(t.session.state, .preparing)] (t.prepareStart p).session := by
  refine ⟨⟨rfl, ?_, rfl⟩, rfl⟩
  rw [ht.rest, hnone]
  decide

/-- Without an operation nothing holds the host. -/
theorem Orderly.holds_of_none {t : Tool} (ht : t.Orderly) (hnone : t.session.operation = .none) :
    t.host.Holds false := by
  have hold := ht.hold
  rwa [hnone] at hold

/-- A refused start leads back to the idle state. -/
theorem Orderly.refuseStart_advances {t u : Tool} (ht : t.Orderly)
    (hnone : t.session.operation = .none) {p : Point}
    (hsession : u.session = (t.prepareStart p).session) (hhost : u.host.Holds false)
    (e : RouterError) : t.Advances 2 (u.refuseStart e) := by
  have hwalk : t.session.Walk ([(t.session.state, .preparing)] ++ [(.preparing, .idle)])
      (t.prepareStart p).session.abortPrepare :=
    (ht.walk_prepare hnone p).trans (.enter rfl (by decide))
  have hlast : (u.refuseStart e).session = (t.prepareStart p).session.abortPrepare := by
    rw [← hsession]
    rfl
  rw [← hlast] at hwalk
  refine ⟨orderly_of_none rfl ?_ ((Host.told_notify _ _).holds hhost), _, by simp, hwalk⟩
  rw [hlast]
  exact hnone

/-- A route that the engine lets start runs, and holds the host. -/
theorem openRoute_advances {t t' : Tool} {p : Point} {id : Option ItemId} {item : Option Item}
    {layer : LayerId} (ht : t.Orderly) (hnone : t.session.operation = .none)
    (h : (t.prepareStart p).openRoute p id item layer = .ok t') : t.Advances 2 t' := by
  have hfree := ht.holds_of_none hnone
  simp only [openRoute] at h
  obtain ⟨start, _, h⟩ := Checked.bind_eq_ok.mp h
  obtain ⟨refusal, _, h⟩ := Checked.bind_eq_ok.mp h
  cases refusal with
  | some reason =>
      cases h
      exact ht.refuseStart_advances hnone (p := p)
        (u := ((t.prepareStart p).mapHost fun h => h.acquire _).mapHost Host.release)
        rfl (hfree.acquire _).release _
  | none =>
      cases h
      have hwalk : t.session.Walk ([(t.session.state, .preparing)] ++ [(.preparing, .routing)])
          ((t.prepareStart p).session.enter .routing) :=
        (ht.walk_prepare hnone p).trans (.enter rfl (by decide))
      refine ⟨⟨rfl, ?_⟩, _, by simp, ⟨hwalk.path, hwalk.trail⟩⟩
      show (Interaction.releasedHost _).Holds true
      have hstill : (t.prepareStart p).session.operation.isNone = true :=
        Operation.isNone_iff.mpr (congrArg Operation.restState hnone)
      simp only [Interaction.releasedHost, mapHost, hstill, if_true]
      exact hfree.acquire _

/-- Starting a route takes four transitions at most, two of them to end what ran before. -/
theorem startRouting_advances {t t' : Tool} {p : Point} {id : Option ItemId} (ht : t.Orderly)
    (h : t.startRouting p id = .ok t') : t.Advances 4 t' := by
  obtain ⟨u, hidle, h⟩ := Checked.bind_eq_ok.mp h
  obtain ⟨hmade, hnone⟩ := makeIdle_advances ht hidle
  have hu := hmade.orderly
  refine hmade.trans (k := 2) ?_
  simp only at h
  split at h
  · exact openRoute_advances hu hnone h
  · cases h
    exact hu.refuseStart_advances hnone (p := p) rfl (hu.holds_of_none hnone) _

/-- Beginning a drag takes one transition at most. -/
theorem beginDrag_advances {t : Tool} (ht : t.Orderly) (hnone : t.session.operation = .none)
    (grabbed : List Item) (anchor : Point) (mode : DragMode) (locked : Bool) :
    t.Advances 1 (t.beginDrag grabbed anchor mode locked) := by
  have hasked := t.mayChange_quiet locked .dragLocked
  have hkept := t.mayChange_session locked .dragLocked
  unfold beginDrag
  generalize t.mayChange locked .dragLocked = asked at hasked hkept
  obtain ⟨u, confirmed⟩ := asked
  have hu := (hasked.advances ht).orderly
  cases confirmed with
  | false => exact (hasked.advances ht).mono (by omega)
  | true =>
      have hstill : u.session.operation = .none := by rw [hkept]; exact hnone
      have hidle : t.session.state = .idle := by rw [ht.rest, hnone]; rfl
      have hwalk : t.session.Walk [(.idle, .dragging)] (t.session.enter .dragging) :=
        .enter hidle (by decide)
      have hfree := hu.holds_of_none hstill
      refine ⟨⟨rfl, ?_⟩, _, by simp, ⟨hwalk.path, ?_⟩⟩
      · show (Interaction.releasedHost _).Holds true
        have hstill' : u.session.operation.isNone = true :=
          Operation.isNone_iff.mpr (congrArg Operation.restState hstill)
        simp only [Interaction.releasedHost, mapSession, mapHost, hstill', if_true]
        exact hfree.acquire _
      · rw [← hwalk.trail, ← hkept]
        rfl

/-- Grabbing items takes three transitions at most, two of them to end what ran before. -/
theorem startDrag_advances {t t' : Tool} {ids : List ItemId} {anchor : Point} {mode : DragMode}
    (ht : t.Orderly) (h : t.startDrag ids anchor mode = .ok t') : t.Advances 3 t' := by
  obtain ⟨u, hidle, h⟩ := Checked.bind_eq_ok.mp h
  obtain ⟨hmade, hnone⟩ := makeIdle_advances ht hidle
  refine hmade.trans (k := 1) ?_
  split at h
  · cases h
    exact ((u.quiet_report _).advances hmade.orderly).mono (by omega)
  · cases h
    exact beginDrag_advances hmade.orderly hnone _ _ _ _

/-- Grabbing a footprint takes three transitions at most. -/
theorem startFootprintDrag_advances {t t' : Tool} {id : FootprintId} {anchor : Point}
    {mode : DragMode} (ht : t.Orderly) (h : t.startFootprintDrag id anchor mode = .ok t') :
    t.Advances 3 t' := by
  obtain ⟨u, hidle, h⟩ := Checked.bind_eq_ok.mp h
  obtain ⟨hmade, hnone⟩ := makeIdle_advances ht hidle
  refine hmade.trans (k := 1) ?_
  split at h
  · cases h
    exact ((u.quiet_report _).advances hmade.orderly).mono (by omega)
  · split at h
    · cases h
      exact ((u.quiet_report _).advances hmade.orderly).mono (by omega)
    · cases h
      exact beginDrag_advances hmade.orderly hnone _ _ _ _

/-- A command that does not transit is quiet. -/
theorem execute_quiet {t t' : Tool} {c : Command} {refusal : Option CommandRefusal}
    (h : t.execute c = .ok (t', refusal)) : c.Transits ∨ t.Quiet t' := by
  cases c with
  | startRouting p id => exact .inl (.startRouting p id)
  | startDrag ids anchor mode => exact .inl (.startDrag ids anchor mode)
  | startFootprintDrag id anchor mode => exact .inl (.startFootprintDrag id anchor mode)
  | fixRoute p id finish => exact .inl (.fixRoute p id finish)
  | fixDrag => exact .inl .fixDrag
  | cancelOperation => exact .inl .cancelOperation
  | moveHead p id ortho => exact .inr (moveHead_quiet (Checked.of_tagged h))
  | undoLastSegment => exact .inr (undoLastSegment_quiet (Checked.of_tagged h))
  | placeVia v target => exact .inr (placeVia_quiet (Checked.of_tagged h))
  | switchLayer command => exact .inr (switchLayer_quiet (Checked.of_tagged h))
  | moveDrag p => exact .inr (moveDrag_quiet (Checked.of_tagged h))
  | breakTrack p => exact .inr (breakTrack_quiet (Checked.of_tagged h))
  | useNetClassSizes => exact .inr (changeDesign_quiet (Checked.of_tagged h))
  | setCustomTrackWidth width => exact .inr (setCustomTrackWidth_quiet (Checked.of_tagged h))
  | setCustomViaSize diameter drill => exact .inr (setCustomViaSize_quiet (Checked.of_tagged h))
  | setDiffPair width gap viaGap => exact .inr (setDiffPair_quiet (Checked.of_tagged h))
  | flipPosture => exact .inr (flipPosture_quiet (Checked.of_tagged h))
  | toggleRounding => exact .inr (toggleRounding_quiet (Checked.of_tagged h))
  | setRouterMode mode => exact .inr (setRouterMode_quiet (Checked.of_tagged h))
  | undo =>
      have hundo := t.undo_quiet
      rw [Checked.pure_eq_ok.mp h] at hundo
      exact .inr hundo
  | redo =>
      have hredo := t.redo_quiet
      rw [Checked.pure_eq_ok.mp h] at hredo
      exact .inr hredo
  | selectLayerPair pair =>
      cases h
      exact .inr (t.selectLayerPair_quiet pair)
  | requestViaTarget v =>
      cases h
      exact .inr ⟨rfl, rfl, rfl, Host.told_notify _ _⟩
  | trackCursor p | resetSession | clearWorld | syncWorld =>
      cases h
      exact .inr ⟨rfl, rfl, rfl, Host.Told.refl _⟩

/-- **Every command leads from rest to rest** by at most four transitions. -/
theorem execute_advances {t t' : Tool} {c : Command} {refusal : Option CommandRefusal}
    (ht : t.Orderly) (h : t.execute c = .ok (t', refusal)) : t.Advances 4 t' := by
  rcases execute_quiet h with htransits | hquiet
  · cases htransits with
    | startRouting => exact startRouting_advances ht (Checked.of_tagged h)
    | startDrag => exact (startDrag_advances ht (Checked.of_tagged h)).mono (by omega)
    | startFootprintDrag =>
        exact (startFootprintDrag_advances ht (Checked.of_tagged h)).mono (by omega)
    | fixRoute => exact (fixRoute_advances ht (Checked.of_tagged h)).mono (by omega)
    | fixDrag => exact (fixDrag_advances ht (Checked.of_tagged h)).mono (by omega)
    | cancelOperation => exact (cancelOperation_advances ht (Checked.of_tagged h)).mono (by omega)
  · exact (hquiet.advances ht).mono (by omega)

/-- Neither the log nor the host's next answer has to do with rest. -/
theorem Orderly.ready {t : Tool} (ht : t.Orderly) (k : Turn) : (t.ready k).Orderly :=
  ⟨ht.rest, ht.hold.answering k.confirms⟩

/-- **Every turn** leads from rest to rest by four transitions at most. -/
theorem turn_advances {t t' : Tool} {k : Turn} (ht : t.Orderly) (h : t.turn k = .ok t') :
    t.Advances 4 t' := by
  obtain ⟨refusal, h⟩ := turn_eq_ok.mp h
  have hdone := execute_advances (ht.ready k) h
  exact ⟨hdone.orderly, hdone.walk⟩

/-- A new tool is at rest. -/
theorem orderly_new (board : Board) (world : World) (options : Options) (rules : RuleSet)
    (search : TreeSearch) (confirms : Bool) :
    (new board world options rules search confirms).Orderly :=
  ⟨rfl, Host.holds_new confirms⟩

/-- Every run leads from rest to rest. -/
theorem run_orderly {t t' : Tool} {ks : List Turn} (ht : t.Orderly) (h : t.run ks = .ok t') :
    t'.Orderly :=
  run_invariant (P := Orderly) (fun _ _ _ ht hturn => (turn_advances ht hturn).orderly) ht h

/-- **The edit block.**  After every run the host is held once when an operation runs
and not at all when none does; what it was told are whole groups that take and give
back in turn; and an idle tool highlights no net. -/
theorem run_editBlock {board : Board} {world : World} {options : Options} {rules : RuleSet}
    {search : TreeSearch} {confirms : Bool} {ks : List Turn} {t : Tool}
    (h : (new board world options rules search confirms).run ks = .ok t) :
    t.host.blockDepth = (if t.session.operation.isNone then 0 else 1) ∧
      (∃ n, t.host.guardEvents =
        (List.replicate n (Host.acquireGroup ++ Host.releaseGroup)).flatten ++
          if t.session.operation.isNone then [] else Host.acquireGroup) ∧
      (t.session.state = .idle → t.host.highlighted = none) := by
  have hlast := run_orderly (orderly_new board world options rules search confirms) h
  obtain ⟨hdepth, hgroups, hdark⟩ := hlast.hold
  have hidle : t.session.state = .idle → t.session.operation.isNone = true := by
    intro hidle
    rw [Operation.isNone_iff, ← hlast.rest]
    exact hidle
  cases hnone : t.session.operation.isNone with
  | true =>
      rw [hnone] at hdepth hgroups hdark
      exact ⟨hdepth, hgroups, fun _ => hdark rfl⟩
  | false =>
      rw [hnone] at hdepth hgroups
      refine ⟨hdepth, hgroups, fun hstate => ?_⟩
      rw [hidle hstate] at hnone
      cases hnone

/-- A second route takes the place of the first. -/
theorem run_editBlock_replaced_route :
    ∃ t, (launch Board.standard Options.standard [] true).run
        [⟨.startRouting Point.zero none, true⟩, ⟨.startRouting Point.zero none, true⟩] = .ok t ∧
      t.host.blockDepth = (if t.session.operation.isNone then 0 else 1) ∧
      (∃ n, t.host.guardEvents =
        (List.replicate n (Host.acquireGroup ++ Host.releaseGroup)).flatten ++
          if t.session.operation.isNone then [] else Host.acquireGroup) ∧
      (t.session.state = .idle → t.host.highlighted = none) := by
  obtain ⟨t, h⟩ : ∃ t, (launch Board.standard Options.standard [] true).run
      [⟨.startRouting Point.zero none, true⟩, ⟨.startRouting Point.zero none, true⟩] = .ok t :=
    ⟨_, rfl⟩
  exact ⟨t, h, run_editBlock h⟩

end Tool

end CopperRoute
