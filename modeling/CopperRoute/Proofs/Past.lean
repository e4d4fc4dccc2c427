import CopperRoute.Proofs.Effects
import Mathlib.Data.List.Basic

/-!
# Commands do not read the trail

The trail is a window on all the transitions that were ever made: it shows the
newest `trailCapacity` of them.  Every command writes into this window and none looks
at it.  So a tool with an older past behind its trail (`Tool.after`) does exactly
what the tool without it does (`turn_after`), and the transitions of a turn can be
read off from a tool that starts with an empty trail.
-/

namespace CopperRoute

namespace Session

/-- The newest transitions of a list, as many as a trail shows. -/
def recent (ms : List (SessionState × SessionState)) : List (SessionState × SessionState) :=
  ms.drop (ms.length - trailCapacity)

variable {ms : List (SessionState × SessionState)}

/-- A trail shows all transitions until there are too many for it. -/
theorem length_recent (ms : List (SessionState × SessionState)) :
    (recent ms).length = min ms.length trailCapacity := by
  rw [recent, List.length_drop]
  omega

/-- Few transitions all show. -/
theorem recent_of_length_le (h : ms.length ≤ trailCapacity) : recent ms = ms := by
  rw [recent, Nat.sub_eq_zero_of_le h, List.drop_zero]

/-- Later transitions push earlier ones out of the trail. -/
theorem recent_append_eq (old ms : List (SessionState × SessionState)) :
    recent (old ++ ms) =
      old.drop (old.length + ms.length - trailCapacity) ++ ms.drop (ms.length - trailCapacity) := by
  have hrest : old.length + ms.length - trailCapacity - old.length = ms.length - trailCapacity := by
    omega
  rw [recent, List.length_append, List.drop_append, hrest]

/-- What no longer shows does not matter. -/
theorem recent_append (old : List (SessionState × SessionState))
    (h : trailCapacity ≤ ms.length) : recent (old ++ ms) = recent ms := by
  have hgone : old.length ≤ old.length + ms.length - trailCapacity := by omega
  rw [recent_append_eq, List.drop_eq_nil_of_le hgone, List.nil_append, recent]

/-- What no longer showed before shows no more after further transitions. -/
theorem recent_recent_append (old ms : List (SessionState × SessionState)) :
    recent (recent old ++ ms) = recent (old ++ ms) := by
  have hdrop : old.length - trailCapacity + ((recent old).length + ms.length - trailCapacity) =
      old.length + ms.length - trailCapacity ∨ old.length ≤ trailCapacity := by
    rw [length_recent]
    omega
  rcases hdrop with hdrop | hshort
  · have hinner (k : Nat) : (recent old).drop k = old.drop (old.length - trailCapacity + k) := by
      rw [recent, List.drop_drop]
    rw [recent_append_eq, recent_append_eq, hinner, hdrop]
  · rw [recent_of_length_le hshort]

/-- The session's trail takes one transition more by the same rule. -/
theorem extendTrail_eq_recent (h : ms.length ≤ trailCapacity) (m : SessionState × SessionState) :
    extendTrail ms m = recent (ms ++ [m]) := by
  have hlast : [m].drop (1 - trailCapacity) = [m] := rfl
  rw [recent_append_eq, List.length_singleton, hlast, extendTrail]
  split
  · have hone : ms.length + 1 - trailCapacity = 1 := by omega
    rw [hone, List.drop_one]
  · have hzero : ms.length + 1 - trailCapacity = 0 := by omega
    rw [hzero, List.drop_zero]

/-- A transition noted behind an older past. -/
theorem recent_append_extendTrail (past ms : List (SessionState × SessionState))
    (m : SessionState × SessionState) :
    recent (past ++ extendTrail ms m) = extendTrail (recent (past ++ ms)) m := by
  have hlength : (recent (past ++ ms)).length ≤ trailCapacity := by
    rw [length_recent]
    exact Nat.min_le_right _ _
  rw [extendTrail_eq_recent hlength, recent_recent_append, List.append_assoc]
  by_cases hfull : trailCapacity ≤ ms.length
  · -- the oldest transition of the full trail is forgotten on both sides
    obtain ⟨a, rest, rfl⟩ : ∃ a rest, ms = a :: rest := by
      cases ms with
      | nil => simp [trailCapacity] at hfull
      | cons a rest => exact ⟨a, rest, rfl⟩
    have hkept : trailCapacity ≤ (rest ++ [m]).length := by simpa using hfull
    have hsplit : past ++ (a :: rest ++ [m]) = past ++ [a] ++ (rest ++ [m]) := by simp
    rw [extendTrail, if_pos hfull, List.tail_cons, hsplit, recent_append _ hkept,
      recent_append _ hkept]
  · rw [extendTrail, if_neg hfull]

/-- Noting a few transitions one by one. -/
theorem foldl_extendTrail (past : List (SessionState × SessionState))
    (h : past.length + ms.length ≤ trailCapacity) :
    ms.foldl extendTrail past = past ++ ms := by
  induction ms generalizing past with
  | nil => simp
  | cons m ms ih =>
      have hfree : ¬ trailCapacity ≤ past.length := by
        rw [List.length_cons] at h
        omega
      rw [List.foldl_cons, extendTrail, if_neg hfree, ih, List.append_assoc]
      · rfl
      · simpa [Nat.add_assoc, Nat.add_comm 1] using h

-- from here on only the lemmas above say what the window shows
attribute [irreducible] recent

/-- The session with older transitions behind its own. -/
def after (s : Session) (past : List (SessionState × SessionState)) : Session :=
  { s with trail := recent (past ++ s.trail) }

variable (s : Session) (past : List (SessionState × SessionState))

/-- An older past is no part of the operation. -/
@[simp] theorem operation_after : (s.after past).operation = s.operation := rfl

/-- Whether the session is idle does not depend on its past. -/
@[simp] theorem isIdle_after : (s.after past).isIdle = s.isIdle := rfl

@[simp] theorem isDragging_after : (s.after past).isDragging = s.isDragging := rfl

/-- The running route is the same with any past. -/
@[simp] theorem route?_after : (s.after past).route? = s.route? := rfl

@[simp] theorem drag?_after : (s.after past).drag? = s.drag? := rfl

@[simp] theorem request?_after : (s.after past).request? = s.request? := rfl

/-- The active layer is the same with any past. -/
@[simp] theorem activeLayer_after : (s.after past).activeLayer = s.activeLayer := rfl

/-- **Entering a state** adds to the trail, whatever stands in it. -/
@[simp] theorem enter_after (next : SessionState) :
    (s.after past).enter next = (s.enter next).after past := by
  simp only [enter, after, recent_append_extendTrail]

/-- A change of the route leaves the past where it is. -/
@[simp] theorem mapRoute_after (f : RouteOp → RouteOp) :
    (s.after past).mapRoute f = (s.mapRoute f).after past := by
  cases hop : s.operation <;> simp [mapRoute, hop, after]

/-- Taking back the via leaves the past where it is. -/
@[simp] theorem withdrawVia_after : (s.after past).withdrawVia = s.withdrawVia.after past := by
  unfold withdrawVia
  rw [route?_after]
  split
  · rw [mapRoute_after]
    rfl
  · rfl

/-- Beginning to fix adds to the trail, whatever stands in it. -/
@[simp] theorem beginFix_after : (s.after past).beginFix = s.beginFix.after past :=
  enter_after { s with fixOrigin := s.state } past .fixing

/-- Going on adds to the trail, whatever stands in it. -/
@[simp] theorem resume_after : (s.after past).resume = s.resume.after past :=
  enter_after s past s.fixOrigin

/-- A longer route is the same with any past. -/
@[simp] theorem extendRoute_after (g : RouteGeometry) :
    (s.after past).extendRoute g = (s.extendRoute g).after past := by
  simp only [extendRoute, beginFix_after, mapRoute_after, resume_after]
  rfl

/-- An operation ends alike with any past. -/
theorem finished_after (committed : Bool) :
    (s.after past).finished committed = (s.finished committed).after past := by
  cases committed <;> simp only [finished, ← enter_after] <;> rfl

/-- An operation is broken off alike with any past. -/
theorem brokenOff_after : (s.after past).brokenOff = s.brokenOff.after past := by
  by_cases hnew : s.committed = 0 <;>
    simp [brokenOff, sizesToSave, route?, enter, after, hnew, recent_append_extendTrail]

end Session

namespace Interaction

/-- An interaction whose session has an older past. -/
def after (i : Interaction) (past : List (SessionState × SessionState)) : Interaction :=
  { i with session := i.session.after past }

variable (i : Interaction) (past : List (SessionState × SessionState))

/-- A session begins a route alike with any past. -/
theorem startRouting_after (op : RouteOp) :
    (i.after past).startRouting op = (i.startRouting op).after past := by
  simp only [startRouting, after, ← Session.enter_after]
  rfl

/-- A session begins a drag alike with any past. -/
theorem startDrag_after (op : DragOp) :
    (i.after past).startDrag op = (i.startDrag op).after past := by
  simp only [startDrag, after, ← Session.enter_after]
  rfl

/-- The end of an operation releases the host alike with any past. -/
theorem finish_after (committed : Bool) :
    (i.after past).finish committed = (i.finish committed).after past := by
  simp only [finish, after, Session.finished_after]
  rfl

/-- Breaking off says the same with any past. -/
theorem cancel_after : (i.after past).cancel = (i.cancel.1.after past, i.cancel.2) := by
  cases hnone : i.session.operation.isNone with
  | true => simp [cancel, after, hnone]
  | false => simp [cancel, after, releasedHost, hnone, Session.brokenOff_after]

end Interaction

namespace Tool

/-- The tool with older transitions behind its trail. -/
def after (t : Tool) (past : List (SessionState × SessionState)) : Tool :=
  t.mapSession fun s => s.after past

variable (t : Tool) (past : List (SessionState × SessionState))

/-- The past of a tool is that of its session. -/
@[simp] theorem session_after : (t.after past).session = t.session.after past := rfl

@[simp] theorem board_after : (t.after past).board = t.board := rfl

@[simp] theorem world_after : (t.after past).world = t.world := rfl

@[simp] theorem rules_after : (t.after past).rules = t.rules := rfl

@[simp] theorem options_after : (t.after past).options = t.options := rfl

@[simp] theorem history_after : (t.after past).history = t.history := rfl

/-- Changing the session commutes with an older past when the change does not look at
the trail. -/
theorem mapSession_after {f : Session → Session}
    (hf : ∀ s : Session, f (s.after past) = (f s).after past) :
    (t.after past).mapSession f = (t.mapSession f).after past := by
  simp only [after, mapSession, hf]

/-- A change of the tool's route leaves the past where it is. -/
theorem mapSession_mapRoute_after (f : RouteOp → RouteOp) :
    (t.after past).mapSession (fun s => s.mapRoute f) =
      (t.mapSession fun s => s.mapRoute f).after past :=
  mapSession_after t past fun s => s.mapRoute_after past f

/-- What is said to the host leaves the past where it is. -/
@[simp] theorem mapHost_after (f : Host → Host) :
    (t.after past).mapHost f = (t.mapHost f).after past :=
  rfl

/-- New design settings leave the past where it is. -/
@[simp] theorem mapDesign_after (change : Design → Design) :
    (t.after past).mapDesign change = (t.mapDesign change).after past :=
  rfl

@[simp] theorem syncWorld_after : (t.after past).syncWorld = t.syncWorld.after past := rfl

/-- A notification leaves the past where it is. -/
@[simp] theorem notify_after (n : Notification) :
    (t.after past).notify n = (t.notify n).after past :=
  rfl

@[simp] theorem report_after (e : RouterError) :
    (t.after past).report e = (t.report e).after past :=
  rfl

/-- **A new head** does not depend on the past. -/
theorem refreshHead_after :
    (t.after past).refreshHead = (fun u => u.after past) <$> t.refreshHead := by
  unfold refreshHead
  simp only [session_after, Session.request?_after, world_after]
  cases t.session.request? with
  | none => rfl
  | some r =>
      simp only [map_bind]
      refine bind_congr fun answer => ?_
      cases answer with
      | ok g =>
          exact congrArg pure (mapSession_after t past fun s => Session.mapRoute_after s past _)
      | error reason => rfl

/-- **A commit** does not depend on the past. -/
theorem commit_after (c : Changeset) :
    (t.after past).commit c = (fun r => (r.1, r.2.after past)) <$> t.commit c := by
  unfold commit
  simp only [board_after, history_after, map_bind]
  refine bind_congr fun outcome => ?_
  cases outcome with
  | rejected reason => rfl
  | untouched => rfl
  | applied board report =>
      simp only [map_bind]
      rfl

/-- Fixed steps are taken over alike with any past. -/
theorem commitStaged_after :
    (t.after past).commitStaged = (fun u => u.after past) <$> t.commitStaged := by
  unfold commitStaged
  have hstaged : (t.after past).stagedChanges? = t.stagedChanges? := rfl
  rw [hstaged]
  cases t.stagedChanges? with
  | none => rfl
  | some c =>
      simp only [commit_after, map_bind, bind_map_left]
      refine bind_congr fun r => ?_
      obtain ⟨r, u⟩ := r
      cases r <;> rfl

/-- An operation stops alike with any past. -/
theorem stopOperation_after :
    (t.after past).stopOperation = (fun r => (r.1.after past, r.2)) <$> t.stopOperation := by
  unfold stopOperation
  simp only [commitStaged_after, map_bind, bind_map_left]
  refine bind_congr fun u => ?_
  have hcancel : (u.after past).cancel = (u.cancel.1.after past, u.cancel.2) :=
    u.toInteraction.cancel_after past
  simp only [hcancel]
  rfl

/-- The tool comes to rest alike with any past. -/
theorem makeIdle_after : (t.after past).makeIdle = (fun u => u.after past) <$> t.makeIdle := by
  unfold makeIdle
  simp only [session_after, Session.isIdle_after, stopOperation_after]
  split
  · rfl
  · simp only [map_bind, bind_map_left]
    rfl

/-- A change of the session that is followed by a new head. -/
theorem refreshHead_mapSession_after {f : Session → Session}
    (hf : ∀ s : Session, f (s.after past) = (f s).after past) :
    ((t.after past).mapSession f).refreshHead =
      (fun u => u.after past) <$> (t.mapSession f).refreshHead := by
  rw [mapSession_after t past hf, refreshHead_after]

/-- The head moves alike with any past. -/
theorem moveHead_after (p : Point) (id : Option ItemId) (ortho : Bool) :
    (t.after past).moveHead p id ortho = (fun u => u.after past) <$> t.moveHead p id ortho :=
  refreshHead_mapSession_after t past fun s => Session.mapRoute_after { s with cursor := p } past _

/-- A start is refused alike with any past. -/
theorem refuseStart_after (e : RouterError) :
    (t.after past).refuseStart e = (t.refuseStart e).after past := by
  have habort : (t.after past).mapSession Session.abortPrepare =
      (t.mapSession Session.abortPrepare).after past :=
    mapSession_after t past fun s => s.enter_after past .idle
  rw [refuseStart, habort, report_after, refuseStart]

/-- A route begins alike with any past, once nothing else runs. -/
theorem openRoute_after (p : Point) (id : Option ItemId) (item : Option Item) (layer : LayerId) :
    (t.after past).openRoute p id item layer =
      (fun u => u.after past) <$> t.openRoute p id item layer := by
  have hstart : (t.after past).startPoint p item = t.startPoint p item := by
    cases item <;> rfl
  have hsizes : (t.after past).startSizes item layer = t.startSizes item layer := rfl
  simp only [openRoute, hstart, hsizes, mapHost_after, world_after, map_bind]
  refine bind_congr fun start => ?_
  generalize t.mapHost _ = u
  refine bind_congr fun refusal => ?_
  cases refusal with
  | some reason => exact congrArg Except.ok (refuseStart_after (u.mapHost Host.release) past _)
  | none =>
      exact congrArg (fun i => (Except.ok { u with toInteraction := i } : Checked Tool))
        (u.toInteraction.startRouting_after past _)

/-- A route takes the place of what runs alike with any past. -/
theorem startRouting_after (p : Point) (id : Option ItemId) :
    (t.after past).startRouting p id = (fun u => u.after past) <$> t.startRouting p id := by
  unfold startRouting
  simp only [makeIdle_after, map_bind, bind_map_left]
  refine bind_congr fun u => ?_
  have hprepare : (u.after past).prepareStart p = (u.prepareStart p).after past :=
    mapSession_after u past fun s => Session.enter_after { s with cursor := p } past .preparing
  have hlayer (item : Option Item) : startLayer ((u.prepareStart p).session.after past) item =
      startLayer (u.prepareStart p).session item := by
    cases item <;> rfl
  simp only [hprepare, session_after, board_after, hlayer, openRoute_after, refuseStart_after]
  split <;> rfl

/-- Ending the operation of a session with an older past. -/
theorem finish_after (committed : Bool) :
    { t.after past with toInteraction := (t.after past).toInteraction.finish committed } =
      Tool.after { t with toInteraction := t.toInteraction.finish committed } past :=
  congrArg (fun i => { t with toInteraction := i })
    (t.toInteraction.finish_after past committed)

/-- A route is finished alike with any past. -/
theorem finishRoute_after (g : RouteGeometry) :
    (t.after past).finishRoute g = (fun u => u.after past) <$> t.finishRoute g := by
  unfold finishRoute
  simp only [mapSession_after t past fun s => s.beginFix_after past, commit_after, session_after,
    Session.route?_after, map_bind, bind_map_left]
  refine bind_congr fun r => ?_
  obtain ⟨r, u⟩ := r
  cases r with
  | ok report => exact congrArg pure (u.finish_after past _)
  | error reason =>
      exact congrArg pure (mapSession_after (u.report _) past fun s => s.resume_after past)

/-- A head is fixed alike with any past. -/
theorem fixRoute_after (p : Point) (id : Option ItemId) (finish : Bool) :
    (t.after past).fixRoute p id finish = (fun u => u.after past) <$> t.fixRoute p id finish := by
  unfold fixRoute
  simp only [moveHead_after, session_after, Session.route?_after, map_bind, bind_map_left]
  refine bind_congr fun u => ?_
  simp only [Session.request?_after, world_after]
  cases u.session.request? with
  | none => rfl
  | some r =>
      simp only [map_bind]
      refine bind_congr fun answer => ?_
      cases answer with
      | error reason => rfl
      | ok g =>
          simp only [finishRoute_after]
          split
          · rfl
          · split
            · rfl
            · exact congrArg pure (mapSession_after u past fun s => s.extendRoute_after past g)

/-- A fixed step is taken back alike with any past. -/
theorem undoLastSegment_after :
    (t.after past).undoLastSegment = (fun u => u.after past) <$> t.undoLastSegment := by
  unfold undoLastSegment
  simp only [session_after, Session.route?_after]
  split
  · rfl
  · exact refreshHead_mapSession_after t past fun s => rfl

/-- An operation is cancelled alike with any past. -/
theorem cancelOperation_after :
    (t.after past).cancelOperation = (fun u => u.after past) <$> t.cancelOperation := by
  unfold cancelOperation
  have hforget : (t.after past).mapSession (fun s => { s with pendingViaTarget := none }) =
      (t.mapSession fun s => { s with pendingViaTarget := none }).after past := rfl
  simp only [hforget, stopOperation_after, map_bind, bind_map_left]
  refine bind_congr fun r => ?_
  obtain ⟨u, stopped⟩ := r
  cases stopped <;> rfl

/-- A via is hung on or taken back alike with any past. -/
theorem toggleVia_after (v : ViaType) (target : Option LayerId) :
    (t.after past).toggleVia v target = (fun u => u.after past) <$> t.toggleVia v target := by
  unfold toggleVia
  simp only [session_after, Session.route?_after, board_after, rules_after]
  split
  · rfl
  · split
    · exact refreshHead_mapSession_after t past fun s => s.withdrawVia_after past
    · split
      · rfl
      · exact refreshHead_mapSession_after t past fun s => rfl

/-- The command for a via does not read the past. -/
theorem placeVia_after (v : ViaType) (target : Option LayerId) :
    (t.after past).placeVia v target = (fun u => u.after past) <$> t.placeVia v target :=
  toggleVia_after (t.mapSession fun s => { s with pendingViaTarget := none }) past v target

/-- The head reaches another layer alike with any past. -/
theorem routeToLayer_after (r : RouteRequest) (layer : LayerId) :
    (t.after past).routeToLayer r layer = (fun u => u.after past) <$> t.routeToLayer r layer := by
  unfold routeToLayer
  simp only [world_after]
  split
  · refine refreshHead_mapSession_after t past fun s => ?_
    rw [Session.mapRoute_after]
    rfl
  · exact placeVia_after t past _ _
  · rfl

/-- Switching layers does not read the past. -/
theorem switchLayer_after (command : LayerCommand) :
    (t.after past).switchLayer command = (fun u => u.after past) <$> t.switchLayer command := by
  unfold switchLayer
  rw [mapSession_after t past fun s => s.withdrawVia_after past]
  simp only [goToLayer, session_after, Session.route?_after, Session.activeLayer_after,
    Session.request?_after, board_after, routeToLayer_after]
  split <;> rfl

/-- Choosing a pair of layers does not read the past. -/
theorem selectLayerPair_after (pair : LayerPair) :
    (t.after past).selectLayerPair pair = (t.selectLayerPair pair).after past := by
  unfold selectLayerPair
  simp only [board_after, mapDesign_after, report_after,
    mapSession_mapRoute_after, syncWorld_after]
  split <;> rfl

/-- The design settings change alike with any past. -/
theorem changeDesign_after (change : Design → Design) :
    (t.after past).changeDesign change = (fun u => u.after past) <$> t.changeDesign change := by
  simp only [changeDesign, mapDesign_after, syncWorld_after, board_after, rules_after,
    mapSession_mapRoute_after, notify_after, refreshHead_after]

/-- The width of tracks is set alike with any past. -/
theorem setCustomTrackWidth_after (width : UInt32) :
    (t.after past).setCustomTrackWidth width =
      (fun u => u.after past) <$> t.setCustomTrackWidth width := by
  unfold setCustomTrackWidth
  split
  · rfl
  · exact changeDesign_after t past _

/-- The size of vias is set alike with any past. -/
theorem setCustomViaSize_after (diameter drill : UInt32) :
    (t.after past).setCustomViaSize diameter drill =
      (fun u => u.after past) <$> t.setCustomViaSize diameter drill := by
  unfold setCustomViaSize
  split
  · rfl
  · exact changeDesign_after t past _

/-- The sizes of differential pairs are set alike with any past. -/
theorem setDiffPair_after (width gap viaGap : UInt32) :
    (t.after past).setDiffPair width gap viaGap =
      (fun u => u.after past) <$> t.setDiffPair width gap viaGap := by
  unfold setDiffPair
  split
  · rfl
  · exact changeDesign_after t past _

/-- Another router mode does not read the past. -/
theorem setRouterMode_after (mode : RouterMode) :
    (t.after past).setRouterMode mode = (fun u => u.after past) <$> t.setRouterMode mode := by
  unfold setRouterMode
  by_cases hdrag : t.session.isDragging = true
  · simp only [session_after, Session.isDragging_after, hdrag, if_true]
    rfl
  · simp only [session_after, Session.isDragging_after, hdrag]
    exact refreshHead_mapSession_after t past (f := fun s => { s with mode := mode }) fun s => rfl

/-- The host is asked about locked copper alike with any past. -/
theorem mayChange_after (locked : Bool) (q : Question) :
    (t.after past).mayChange locked q =
      ((t.mayChange locked q).1.after past, (t.mayChange locked q).2) := by
  unfold mayChange
  by_cases hfree : (!locked || t.options.autoConfirmLocked) = true
  · simp only [options_after, hfree, if_true]
  · simp only [options_after, hfree]
    rfl

/-- A drag begins alike with any past,. -/
theorem beginDrag_after (grabbed : List Item) (anchor : Point) (mode : DragMode) (locked : Bool) :
    (t.after past).beginDrag grabbed anchor mode locked =
      (t.beginDrag grabbed anchor mode locked).after past := by
  unfold beginDrag
  rw [mayChange_after]
  generalize t.mayChange locked .dragLocked = asked
  obtain ⟨u, confirmed⟩ := asked
  cases confirmed with
  | false => rfl
  | true =>
      exact congrArg (fun i => { u with toInteraction := i })
        (Interaction.startDrag_after ⟨{ u.session with cursor := anchor }, _⟩ past _)

/-- Items are grabbed alike with any past. -/
theorem startDrag_after (ids : List ItemId) (anchor : Point) (mode : DragMode) :
    (t.after past).startDrag ids anchor mode =
      (fun u => u.after past) <$> t.startDrag ids anchor mode := by
  unfold startDrag
  simp only [makeIdle_after, map_bind, bind_map_left]
  refine bind_congr fun u => ?_
  simp only [board_after]
  split
  · rfl
  · exact congrArg pure (beginDrag_after u past _ _ _ _)

/-- A footprint is grabbed alike with any past. -/
theorem startFootprintDrag_after (id : FootprintId) (anchor : Point) (mode : DragMode) :
    (t.after past).startFootprintDrag id anchor mode =
      (fun u => u.after past) <$> t.startFootprintDrag id anchor mode := by
  unfold startFootprintDrag
  simp only [makeIdle_after, map_bind, bind_map_left]
  refine bind_congr fun u => ?_
  simp only [board_after]
  split
  · rfl
  · split
    · rfl
    · exact congrArg pure (beginDrag_after u past _ _ _ _)

/-- A drag moves alike with any past. -/
theorem moveDrag_after (p : Point) :
    (t.after past).moveDrag p = (fun u => u.after past) <$> t.moveDrag p := by
  have hcursor : (t.after past).mapSession (fun s => { s with cursor := p }) =
      (t.mapSession fun s => { s with cursor := p }).after past := rfl
  simp only [moveDrag, hcursor]
  generalize t.mapSession (fun s => { s with cursor := p }) = u
  simp only [session_after, Session.drag?_after, world_after]
  cases u.session.drag? with
  | none => rfl
  | some op =>
      simp only [map_bind]
      refine bind_congr fun answer => ?_
      cases answer with
      | ok drag => rfl
      | error reason =>
          by_cases hblocked : op.blocked = true
          · simp only [hblocked, if_true]
            rfl
          · simp only [hblocked]
            rfl

/-- A drag is fixed alike with any past. -/
theorem fixDrag_after : (t.after past).fixDrag = (fun u => u.after past) <$> t.fixDrag := by
  simp only [fixDrag, session_after, Session.drag?_after,
    mapSession_after t past fun s => s.beginFix_after past]
  cases t.session.drag? with
  | none => rfl
  | some op =>
      generalize t.mapSession Session.beginFix = u
      by_cases hempty : (op.drag.changeset op.allowLocked).isEmpty = true
      · simp only [hempty, if_true]
        exact congrArg Except.ok (u.finish_after past _)
      · simp only [hempty, Bool.false_eq_true, if_false, commit_after, map_bind, bind_map_left]
        refine bind_congr fun r => ?_
        obtain ⟨r, u⟩ := r
        cases r with
        | ok report => exact congrArg Except.ok (u.finish_after past _)
        | error reason =>
            exact congrArg Except.ok
              (mapSession_after (u.report _) past fun s => s.resume_after past)

/-- A track is broken alike with any past. -/
theorem breakTrack_after (p : Point) :
    (t.after past).breakTrack p = (fun u => u.after past) <$> t.breakTrack p := by
  have hunder : (t.after past).itemUnder p = t.itemUnder p := rfl
  unfold breakTrack
  simp only [session_after, Session.isIdle_after, Session.activeLayer_after, hunder,
    mayChange_after]
  cases t.session.isIdle with
  | false => rfl
  | true =>
      simp only [Bool.not_true, Bool.false_eq_true, if_false, map_bind]
      refine bind_congr fun found => ?_
      cases found.filter Item.isSegment with
      | none => rfl
      | some i =>
          by_cases hyes : (t.mayChange i.locked .breakLocked).2 = true
          · simp only [hyes, Bool.not_true, Bool.false_eq_true, if_false, board_after, commit_after,
              map_bind, bind_map_left]
            refine bind_congr fun changes => ?_
            cases changes with
            | none => rfl
            | some c =>
                simp only [map_bind]
                refine bind_congr fun r => ?_
                obtain ⟨r, v⟩ := r
                cases r <;> rfl
          · simp only [hyes]
            rfl

/-- Going back in the history does not read the past. -/
theorem undo_after : (t.after past).undo = (t.undo.1.after past, t.undo.2) := by
  unfold undo
  by_cases hidle : t.session.isIdle = true
  · simp only [session_after, Session.isIdle_after, history_after, board_after, hidle]
    cases t.history.undo t.board <;> rfl
  · simp only [session_after, Session.isIdle_after, hidle]
    rfl

theorem redo_after : (t.after past).redo = (t.redo.1.after past, t.redo.2) := by
  unfold redo
  by_cases hidle : t.session.isIdle = true
  · simp only [session_after, Session.isIdle_after, history_after, board_after, hidle]
    cases t.history.redo t.board <;> rfl
  · simp only [session_after, Session.isIdle_after, hidle]
    rfl

/-- A command that is never refused does not read the past when the tool that it gives does not. -/
private theorem tagged_after {x y : Checked Tool} (h : x = (fun u => u.after past) <$> y) :
    (do return (← x, none)) =
      (fun r : Tool × Option CommandRefusal => (r.1.after past, r.2)) <$>
        (do return (← y, none)) := by
  rw [h]
  simp only [map_bind, bind_map_left]
  rfl

/-- No command looks at the trail. -/
theorem execute_after (c : Command) :
    (t.after past).execute c = (fun r => (r.1.after past, r.2)) <$> t.execute c := by
  cases c with
  | undo => exact congrArg Except.ok (t.undo_after past)
  | redo => exact congrArg Except.ok (t.redo_after past)
  | selectLayerPair pair =>
      exact congrArg (fun u => Except.ok (u, none)) (t.selectLayerPair_after past pair)
  | clearWorld | syncWorld | resetSession | trackCursor | requestViaTarget => rfl
  | startRouting p id => exact tagged_after past (t.startRouting_after past p id)
  | moveHead p id ortho => exact tagged_after past (t.moveHead_after past p id ortho)
  | fixRoute p id finish => exact tagged_after past (t.fixRoute_after past p id finish)
  | undoLastSegment => exact tagged_after past (t.undoLastSegment_after past)
  | flipPosture => exact tagged_after past (t.refreshHead_mapSession_after past fun s => rfl)
  | toggleRounding => exact tagged_after past (t.refreshHead_mapSession_after past fun s => rfl)
  | setRouterMode mode => exact tagged_after past (t.setRouterMode_after past mode)
  | cancelOperation => exact tagged_after past (t.cancelOperation_after past)
  | placeVia v target => exact tagged_after past (t.placeVia_after past v target)
  | switchLayer command => exact tagged_after past (t.switchLayer_after past command)
  | setCustomTrackWidth width => exact tagged_after past (t.setCustomTrackWidth_after past width)
  | setCustomViaSize diameter drill =>
      exact tagged_after past (t.setCustomViaSize_after past diameter drill)
  | setDiffPair width gap viaGap =>
      exact tagged_after past (t.setDiffPair_after past width gap viaGap)
  | useNetClassSizes => exact tagged_after past (t.changeDesign_after past _)
  | startDrag ids anchor mode => exact tagged_after past (t.startDrag_after past ids anchor mode)
  | startFootprintDrag id anchor mode =>
      exact tagged_after past (t.startFootprintDrag_after past id anchor mode)
  | moveDrag p => exact tagged_after past (t.moveDrag_after past p)
  | fixDrag => exact tagged_after past (t.fixDrag_after past)
  | breakTrack p => exact tagged_after past (t.breakTrack_after past p)

/-- **A turn does the same behind any past.** -/
theorem turn_after (k : Turn) : (t.after past).turn k = (fun u => u.after past) <$> t.turn k := by
  have hready : ((t.after past).answering k.confirms).handle k.command =
      ((t.ready k).after past).execute k.command := rfl
  rw [turn, hready, execute_after, turn]
  simp only [map_bind, bind_map_left]
  rfl

end Tool

end CopperRoute
