import CopperRoute.Proofs.Effects
import CopperRoute.Proofs.HostRecord

/-!
# Rest

Between two commands the session is at **rest**: its state says which kind of
operation runs, and the host is held exactly when one does (`Tool.Orderly`).  A
command leads from rest to rest along legal transitions (`Session.Walk`), of which
`Tool.Advances` counts how many there can be.

Most commands make no transition and take no hold at all.  They are **quiet**
(`Tool.Quiet`): they may change the route, the sizes and the board, but they neither
begin nor end an operation, and the host hears nothing from them but messages and
questions.
-/

namespace CopperRoute

/-- The state of a session at rest with this operation. -/
def Operation.restState : Operation → SessionState
  | .none => .idle
  | .routing _ => .routing
  | .dragging _ => .dragging

/-- No operation runs exactly when the session rests in the idle state. -/
theorem Operation.isNone_iff {o : Operation} : o.isNone = true ↔ o.restState = .idle := by
  cases o <;> simp [isNone, restState]

/-- A session that rests in the idle state has no operation. -/
theorem Operation.eq_none_of_restState {o : Operation} (h : o.restState = .idle) : o = .none := by
  cases o <;> simp_all [restState]

/-- What an operation that runs may do: break off, fix, and go back after a fix. -/
theorem Operation.legal_of_run {o : Operation} (hrun : o.isNone = false) :
    (o.restState, SessionState.cancelled) ∈ SessionState.transitions ∧
      (o.restState, SessionState.fixing) ∈ SessionState.transitions ∧
      (SessionState.fixing, o.restState) ∈ SessionState.transitions := by
  cases o with
  | none => cases hrun
  | routing op => simp [restState, SessionState.transitions]
  | dragging op => simp [restState, SessionState.transitions]

/-- One change of the session's state. -/
abbrev Transition := SessionState × SessionState

/-- The transitions are legal and lead from one state to the other, each going on
where the one before it ended. -/
def LegalPath : SessionState → List Transition → SessionState → Prop
  | a, [], b => a = b
  | a, m :: ms, b => m.1 = a ∧ m ∈ SessionState.transitions ∧ LegalPath m.2 ms b

/-- Two legal paths can be joined where the first one ends. -/
theorem LegalPath.append {a b c : SessionState} {ms ns : List Transition}
    (hab : LegalPath a ms b) (hbc : LegalPath b ns c) : LegalPath a (ms ++ ns) c := by
  induction ms generalizing a with
  | nil =>
      cases hab
      exact hbc
  | cons m ms ih => exact ⟨hab.1, hab.2.1, ih hab.2.2⟩

namespace Session

/-- The second session comes from the first by these transitions: they are legal, and
all of them were noted in the trail. -/
structure Walk (s : Session) (ms : List Transition) (s' : Session) : Prop where
  path : LegalPath s.state ms s'.state
  trail : s'.trail = ms.foldl extendTrail s.trail

/-- A session in the same state with the same trail made no transition. -/
theorem Walk.still {s s' : Session} (hstate : s'.state = s.state) (htrail : s'.trail = s.trail) :
    s.Walk [] s' :=
  ⟨hstate.symm, htrail⟩

/-- One legal transition is a walk. -/
theorem Walk.enter {s : Session} {a next : SessionState} (hstate : s.state = a)
    (hlegal : (a, next) ∈ SessionState.transitions) : s.Walk [(a, next)] (s.enter next) := by
  subst hstate
  exact ⟨⟨rfl, hlegal, rfl⟩, rfl⟩

/-- Two walks can be joined. -/
theorem Walk.trans {s₁ s₂ s₃ : Session} {ms ns : List Transition}
    (h₁₂ : s₁.Walk ms s₂) (h₂₃ : s₂.Walk ns s₃) : s₁.Walk (ms ++ ns) s₃ :=
  ⟨h₁₂.path.append h₂₃.path, by rw [h₂₃.trail, h₁₂.trail, List.foldl_append]⟩

end Session

namespace Tool

/-- **Rest.**  The state fits the operation, and so does the hold on the host. -/
structure Orderly (t : Tool) : Prop where
  rest : t.session.state = t.session.operation.restState
  hold : t.host.Holds (!t.session.operation.isNone)

/-- From rest to rest by at most `k` transitions. -/
structure Advances (k : Nat) (t t' : Tool) : Prop where
  orderly : t'.Orderly
  walk : ∃ ms, ms.length ≤ k ∧ t.session.Walk ms t'.session

/-- Two advances add up. -/
theorem Advances.trans {j k : Nat} {t u v : Tool} (htu : t.Advances j u) (huv : u.Advances k v) :
    t.Advances (j + k) v := by
  obtain ⟨ms, hms, hwalk⟩ := htu.walk
  obtain ⟨ns, hns, hwalk'⟩ := huv.walk
  refine ⟨huv.orderly, ms ++ ns, ?_, hwalk.trans hwalk'⟩
  rw [List.length_append]
  exact Nat.add_le_add hms hns

/-- An advance may be allowed more transitions than it makes. -/
theorem Advances.mono {j k : Nat} {t t' : Tool} (h : t.Advances j t') (hjk : j ≤ k) :
    t.Advances k t' := by
  obtain ⟨ms, hms, hwalk⟩ := h.walk
  exact ⟨h.orderly, ms, Nat.le_trans hms hjk, hwalk⟩

/-- No transition was made, no operation begun or ended, and the host heard nothing
but messages and questions. -/
structure Quiet (t t' : Tool) : Prop where
  state : t'.session.state = t.session.state
  trail : t'.session.trail = t.session.trail
  rest : t'.session.operation.restState = t.session.operation.restState
  host : t.host.Told t'.host

theorem Quiet.refl (t : Tool) : t.Quiet t := ⟨rfl, rfl, rfl, Host.Told.refl _⟩

/-- One quiet step after another is quiet. -/
theorem Quiet.trans {t u v : Tool} (htu : t.Quiet u) (huv : u.Quiet v) : t.Quiet v :=
  ⟨huv.state.trans htu.state, huv.trail.trans htu.trail, huv.rest.trans htu.rest,
    htu.host.trans huv.host⟩

/-- A quiet step neither begins nor ends an operation. -/
theorem Quiet.isNone_eq {t t' : Tool} (h : t.Quiet t') :
    t'.session.operation.isNone = t.session.operation.isNone := by
  rw [Bool.eq_iff_iff, Operation.isNone_iff, Operation.isNone_iff, h.rest]

/-- A quiet step leads from rest to rest. -/
theorem Quiet.advances {t t' : Tool} (h : t.Quiet t') (ht : t.Orderly) : t.Advances 0 t' := by
  refine ⟨⟨?_, ?_⟩, [], Nat.le_refl 0, .still h.state h.trail⟩
  · rw [h.state, h.rest]
    exact ht.rest
  · rw [h.isNone_eq]
    exact h.host.holds ht.hold

/-- A quiet step before an advance costs no transition. -/
theorem Quiet.trans_advances {k : Nat} {t u v : Tool} (htu : t.Quiet u) (ht : t.Orderly)
    (huv : u.Orderly → u.Advances k v) : t.Advances k v := by
  have hquiet := htu.advances ht
  simpa using hquiet.trans (huv hquiet.orderly)

/-- A quiet step behind an advance costs none either. -/
theorem Advances.trans_quiet {k : Nat} {t u v : Tool} (htu : t.Advances k u) (huv : u.Quiet v) :
    t.Advances k v :=
  htu.trans (huv.advances htu.orderly)

/-- Changing the session is quiet when its state, trail and kind of operation stay. -/
theorem quiet_mapSession (t : Tool) {f : Session → Session}
    (hstate : (f t.session).state = t.session.state)
    (htrail : (f t.session).trail = t.session.trail)
    (hrest : (f t.session).operation.restState = t.session.operation.restState) :
    t.Quiet (t.mapSession f) :=
  ⟨hstate, htrail, hrest, Host.Told.refl _⟩

/-- A notification is quiet. -/
theorem quiet_notify (t : Tool) (n : Notification) : t.Quiet (t.notify n) :=
  ⟨rfl, rfl, rfl, Host.told_notify _ _⟩

theorem quiet_report (t : Tool) (e : RouterError) : t.Quiet (t.report e) :=
  t.quiet_notify (.error e)

/-- A session rests in the same state whatever becomes of its route. -/
theorem restState_mapRoute (s : Session) (f : RouteOp → RouteOp) :
    (s.mapRoute f).operation.restState = s.operation.restState := by
  cases hop : s.operation <;> simp [Session.mapRoute, hop, Operation.restState]

/-- A change of the route is quiet. -/
theorem quiet_mapRoute (t : Tool) (f : RouteOp → RouteOp) :
    t.Quiet (t.mapSession fun s => s.mapRoute f) :=
  t.quiet_mapSession (t.session.mapRoute_state f) (t.session.mapRoute_trail f)
    (restState_mapRoute t.session f)

/-- A new head is quiet. -/
theorem refreshHead_quiet {t t' : Tool} (h : t.refreshHead = .ok t') : t.Quiet t' := by
  rcases refreshHead_eq_ok h with rfl | ⟨g, rfl⟩
  · exact Quiet.refl t'
  · exact t.quiet_mapRoute _

/-- A commit by itself is quiet: the session learns of it from the caller. -/
theorem commit_quiet {t t' : Tool} {c : Changeset} {r : Except CommitRejection CommitReport}
    (h : t.commit c = .ok (r, t')) : t.Quiet t' := by
  rcases commit_eq_ok h with ⟨_, rfl⟩ | ⟨_, rfl⟩ | ⟨_, _, _, _, _, _, rfl⟩
  · exact Quiet.refl t'
  · exact t.quiet_notify _
  · exact ⟨rfl, rfl, rfl, Host.told_notify _ _⟩

/-- Taking over the fixed steps is quiet. -/
theorem commitStaged_quiet {t t' : Tool} (h : t.commitStaged = .ok t') : t.Quiet t' := by
  rcases commitStaged_eq_ok h with rfl | ⟨c, r, u, hcommit, rfl | ⟨e, rfl⟩⟩
  · exact Quiet.refl t'
  · exact (commit_quiet hcommit).trans (u.quiet_mapSession rfl rfl rfl)
  · exact (commit_quiet hcommit).trans (u.quiet_report e)

/-- Moving the head is quiet. -/
theorem moveHead_quiet {t t' : Tool} {p : Point} {id : Option ItemId} {ortho : Bool}
    (h : t.moveHead p id ortho = .ok t') : t.Quiet t' :=
  (t.quiet_mapSession (Session.mapRoute_state _ _) (Session.mapRoute_trail _ _)
    (restState_mapRoute _ _)).trans (refreshHead_quiet h)

/-- Going on with another route is quiet. -/
theorem quiet_reroute {t : Tool} {op : RouteOp} (hop : t.session.route? = some op) (op' : RouteOp)
    (layer : LayerId) :
    t.Quiet (t.mapSession fun s => { s with operation := .routing op', activeLayer := layer }) := by
  refine t.quiet_mapSession rfl rfl ?_
  rw [Session.route?_eq_some.mp hop]
  rfl

/-- Taking back a fixed step is quiet. -/
theorem undoLastSegment_quiet {t t' : Tool} (h : t.undoLastSegment = .ok t') : t.Quiet t' := by
  unfold undoLastSegment at h
  split at h
  · cases h
    exact Quiet.refl t
  · next op' hundo =>
      obtain ⟨op, hop, _⟩ := Option.bind_eq_some_iff.mp hundo
      exact (quiet_reroute hop op' _).trans (refreshHead_quiet h)

/-- Taking back the via is quiet. -/
theorem withdrawVia_quiet (t : Tool) : t.Quiet (t.mapSession Session.withdrawVia) := by
  apply quiet_mapSession <;> unfold Session.withdrawVia <;> split
  · exact Session.mapRoute_state _ _
  · rfl
  · exact Session.mapRoute_trail _ _
  · rfl
  · exact restState_mapRoute _ _
  · rfl

/-- Hanging a via on or taking it back is quiet. -/
theorem toggleVia_quiet {t t' : Tool} {v : ViaType} {l : Option LayerId}
    (h : t.toggleVia v l = .ok t') : t.Quiet t' := by
  unfold toggleVia at h
  split at h
  · cases h
    exact t.quiet_notify _
  · next op hop =>
      split at h
      · exact (withdrawVia_quiet t).trans (refreshHead_quiet h)
      · split at h
        · cases h
          exact t.quiet_report _
        · exact (quiet_reroute hop _ _).trans (refreshHead_quiet h)

/-- The command for a via is quiet. -/
theorem placeVia_quiet {t t' : Tool} {v : ViaType} {l : Option LayerId}
    (h : t.placeVia v l = .ok t') : t.Quiet t' :=
  (t.quiet_mapSession rfl rfl rfl).trans (toggleVia_quiet h)

/-- Routing to another layer without a via is quiet. -/
theorem routeToLayer_quiet {t t' : Tool} {r : RouteRequest} {l : LayerId}
    (h : t.routeToLayer r l = .ok t') : t.Quiet t' := by
  unfold routeToLayer at h
  split at h
  · exact (t.quiet_mapSession (Session.mapRoute_state _ _) (Session.mapRoute_trail _ _)
      (restState_mapRoute _ _)).trans (refreshHead_quiet h)
  · exact placeVia_quiet h
  · cases h
    exact t.quiet_report _

/-- Switching layers is quiet. -/
theorem switchLayer_quiet {t t' : Tool} {c : LayerCommand} (h : t.switchLayer c = .ok t') :
    t.Quiet t' := by
  refine (withdrawVia_quiet t).trans ?_
  simp only [switchLayer, goToLayer] at h
  split at h
  · cases h
    exact Quiet.refl _
  · cases h
    exact quiet_mapSession _ rfl rfl rfl
  · exact routeToLayer_quiet h

/-- Choosing a pair of layers is quiet. -/
theorem selectLayerPair_quiet (t : Tool) (pair : LayerPair) : t.Quiet (t.selectLayerPair pair) := by
  simp only [selectLayerPair]
  split
  · exact t.quiet_report _
  · exact ⟨Session.mapRoute_state _ _, Session.mapRoute_trail _ _, restState_mapRoute _ _,
      Host.Told.refl _⟩

/-- Changing the design settings is quiet. -/
theorem changeDesign_quiet {t t' : Tool} {change : Design → Design}
    (h : t.changeDesign change = .ok t') : t.Quiet t' := by
  refine Quiet.trans ?_ (refreshHead_quiet h)
  exact ⟨Session.mapRoute_state _ _, Session.mapRoute_trail _ _, restState_mapRoute _ _,
    Host.told_notify _ _⟩

/-- Setting the width of tracks is quiet. -/
theorem setCustomTrackWidth_quiet {t t' : Tool} {width : UInt32}
    (h : t.setCustomTrackWidth width = .ok t') : t.Quiet t' := by
  unfold setCustomTrackWidth at h
  split at h
  · cases h
    exact t.quiet_report _
  · exact changeDesign_quiet h

theorem setCustomViaSize_quiet {t t' : Tool} {diameter drill : UInt32}
    (h : t.setCustomViaSize diameter drill = .ok t') : t.Quiet t' := by
  unfold setCustomViaSize at h
  split at h
  · cases h
    exact t.quiet_report _
  · exact changeDesign_quiet h

theorem setDiffPair_quiet {t t' : Tool} {width gap viaGap : UInt32}
    (h : t.setDiffPair width gap viaGap = .ok t') : t.Quiet t' := by
  unfold setDiffPair at h
  split at h
  · cases h
    exact t.quiet_report _
  · exact changeDesign_quiet h

/-- Flipping the posture is quiet. -/
theorem flipPosture_quiet {t t' : Tool} (h : t.flipPosture = .ok t') : t.Quiet t' :=
  (t.quiet_mapSession (f := fun s => { s with posture := s.posture.flipped }) rfl rfl rfl).trans
    (refreshHead_quiet h)

/-- Rounding corners or not is quiet. -/
theorem toggleRounding_quiet {t t' : Tool} (h : t.toggleRounding = .ok t') : t.Quiet t' :=
  (t.quiet_mapSession (f := fun s => { s with rounded := !s.rounded }) rfl rfl rfl).trans
    (refreshHead_quiet h)

/-- Choosing the router mode is quiet. -/
theorem setRouterMode_quiet {t t' : Tool} {mode : RouterMode} (h : t.setRouterMode mode = .ok t') :
    t.Quiet t' := by
  unfold setRouterMode at h
  split at h
  · cases h
    exact Quiet.refl t
  · exact (t.quiet_mapSession (f := fun s => { s with mode := mode }) rfl rfl rfl).trans
      (refreshHead_quiet h)

/-- Moving a drag is quiet. -/
theorem moveDrag_quiet {t t' : Tool} {p : Point} (h : t.moveDrag p = .ok t') : t.Quiet t' := by
  refine (t.quiet_mapSession (f := fun s => { s with cursor := p }) rfl rfl rfl).trans ?_
  simp only [moveDrag] at h
  split at h
  · cases h
    exact Quiet.refl _
  · next op hop =>
      have hdrag := Session.drag?_eq_some.mp hop
      obtain ⟨answer, _, h⟩ := Checked.bind_eq_ok.mp h
      split at h
      · cases h
        exact quiet_mapSession _ rfl rfl (by rw [hdrag]; rfl)
      · split at h
        · cases h
          exact Quiet.refl _
        · cases h
          exact (quiet_mapSession _ rfl rfl (by rw [hdrag]; rfl)).trans (quiet_report _ _)

/-- The question for locked copper is quiet. -/
theorem mayChange_quiet (t : Tool) (locked : Bool) (q : Question) :
    t.Quiet (t.mayChange locked q).1 := by
  unfold mayChange
  split
  · exact Quiet.refl t
  · exact ⟨rfl, rfl, rfl, Host.told_ask _ _⟩

/-- Breaking a track is quiet: nothing runs meanwhile. -/
theorem breakTrack_quiet {t t' : Tool} {p : Point} (h : t.breakTrack p = .ok t') : t.Quiet t' := by
  unfold breakTrack at h
  split at h
  · cases h
    exact Quiet.refl t
  · obtain ⟨found, _, h⟩ := Checked.bind_eq_ok.mp h
    split at h
    · cases h
      exact t.quiet_report _
    · next i _ =>
        have hasked := t.mayChange_quiet i.locked .breakLocked
        generalize t.mayChange i.locked .breakLocked = asked at h hasked
        obtain ⟨u, confirmed⟩ := asked
        refine hasked.trans ?_
        cases confirmed with
        | false =>
            cases h
            exact Quiet.refl _
        | true =>
            obtain ⟨changes, _, h⟩ := Checked.bind_eq_ok.mp h
            split at h
            · cases h
              exact Quiet.refl _
            · obtain ⟨⟨r, u'⟩, hcommit, h⟩ := Checked.bind_eq_ok.mp h
              refine (commit_quiet hcommit).trans ?_
              cases r with
              | ok report =>
                  cases h
                  exact Quiet.refl _
              | error reason =>
                  cases h
                  exact u'.quiet_report _

/-- Going back in the history is quiet. -/
theorem undo_quiet (t : Tool) : t.Quiet t.undo.1 := by
  unfold undo
  split
  · exact Quiet.refl t
  · split
    · exact ⟨rfl, rfl, rfl, Host.Told.refl _⟩
    · exact Quiet.refl t

theorem redo_quiet (t : Tool) : t.Quiet t.redo.1 := by
  unfold redo
  split
  · exact Quiet.refl t
  · split
    · exact ⟨rfl, rfl, rfl, Host.Told.refl _⟩
    · exact Quiet.refl t

end Tool

end CopperRoute
