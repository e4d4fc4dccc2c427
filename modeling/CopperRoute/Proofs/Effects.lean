import CopperRoute.Proofs.Runs

/-!
# What the shared steps of commands do

Nearly every command ends in one of two steps: it asks the engine for the head
again, or it hands a changeset to the board.  Each step is inverted here once, so
that no later proof opens it again: from its result one reads off which of a few
things it did.
-/

namespace CopperRoute

namespace Session

/-- A change of the route leaves the state. -/
@[simp] theorem mapRoute_state (s : Session) (f : RouteOp → RouteOp) :
    (s.mapRoute f).state = s.state := by
  unfold mapRoute
  split <;> rfl

/-- A change of the route leaves the trail. -/
@[simp] theorem mapRoute_trail (s : Session) (f : RouteOp → RouteOp) :
    (s.mapRoute f).trail = s.trail := by
  unfold mapRoute
  split <;> rfl

@[simp] theorem mapRoute_fixOrigin (s : Session) (f : RouteOp → RouteOp) :
    (s.mapRoute f).fixOrigin = s.fixOrigin := by
  unfold mapRoute
  split <;> rfl

@[simp] theorem mapRoute_mode (s : Session) (f : RouteOp → RouteOp) :
    (s.mapRoute f).mode = s.mode := by
  unfold mapRoute
  split <;> rfl

@[simp] theorem mapRoute_posture (s : Session) (f : RouteOp → RouteOp) :
    (s.mapRoute f).posture = s.posture := by
  unfold mapRoute
  split <;> rfl

@[simp] theorem mapRoute_rounded (s : Session) (f : RouteOp → RouteOp) :
    (s.mapRoute f).rounded = s.rounded := by
  unfold mapRoute
  split <;> rfl

/-- A change of the route leaves the active layer. -/
@[simp] theorem mapRoute_activeLayer (s : Session) (f : RouteOp → RouteOp) :
    (s.mapRoute f).activeLayer = s.activeLayer := by
  unfold mapRoute
  split <;> rfl

/-- A change of the route is no commit. -/
@[simp] theorem mapRoute_committed (s : Session) (f : RouteOp → RouteOp) :
    (s.mapRoute f).committed = s.committed := by
  unfold mapRoute
  split <;> rfl

/-- The running route, changed; a session without a route stays without one. -/
@[simp] theorem route?_mapRoute (s : Session) (f : RouteOp → RouteOp) :
    (s.mapRoute f).route? = s.route?.map f := by
  cases hop : s.operation <;> simp [mapRoute, route?, hop]

/-- A route runs exactly when the session routes it. -/
theorem route?_eq_some {s : Session} {op : RouteOp} :
    s.route? = some op ↔ s.operation = .routing op := by
  cases hop : s.operation <;> simp [route?, hop]

/-- Without an operation no route runs. -/
theorem route?_of_none {s : Session} (h : s.operation = .none) : s.route? = none := by
  simp only [route?, h]

/-- A drag runs exactly when the session drags it. -/
theorem drag?_eq_some {s : Session} {op : DragOp} :
    s.drag? = some op ↔ s.operation = .dragging op := by
  cases hop : s.operation <;> simp [drag?, hop]

end Session

namespace Tool

/-- The tool with this head on its running route. -/
def drawHead (t : Tool) (g : RouteGeometry) : Tool :=
  t.mapSession fun s => s.mapRoute fun op => { op with head := some g }

/-- Asking for the head again replaces the head, or nothing at all. -/
theorem refreshHead_eq_ok {t t' : Tool} (h : t.refreshHead = .ok t') :
    t' = t ∨ ∃ g, t' = t.drawHead g := by
  unfold refreshHead at h
  split at h
  · cases h
    exact .inl rfl
  · obtain ⟨answer, _, h⟩ := Checked.bind_eq_ok.mp h
    split at h
    · cases h
      exact .inr ⟨_, rfl⟩
    · cases h
      exact .inl rfl

/-- The tool on a new board, which its engine has loaded. -/
def onBoard (t : Tool) (board : Board) (history : History Board) : Tool :=
  { t with board := board, world := some board, history := history }

/-- A commit is refused, has nothing to do, or brings a new board and keeps the old
one. -/
theorem commit_eq_ok {t t' : Tool} {c : Changeset} {r : Except CommitRejection CommitReport}
    (h : t.commit c = .ok (r, t')) :
    ((∃ reason, r = .error reason) ∧ t' = t) ∨
      (r = .ok .nothing ∧ t' = t.notify (.committed 0 0 0)) ∨
      ∃ board report history, t.board.commit c = .ok (.applied board report) ∧
        t.history.record t.board = .ok history ∧ r = .ok report ∧
        t' = (t.onBoard board history).notify
          (.committed report.added.length report.modified report.removed) := by
  obtain ⟨outcome, houtcome, h⟩ := Checked.bind_eq_ok.mp h
  cases outcome with
  | rejected reason =>
      cases h
      exact .inl ⟨⟨reason, rfl⟩, rfl⟩
  | untouched =>
      cases h
      exact .inr (.inl ⟨rfl, rfl⟩)
  | applied board report =>
      obtain ⟨history, hhistory, h⟩ := Checked.bind_eq_ok.mp h
      cases h
      exact .inr (.inr ⟨board, report, history, houtcome, hhistory, rfl, rfl⟩)

/-- **What a fix comes to** on a tool whose head has been moved. -/
inductive FixOutcome (u : Tool) (finish : Bool) (t' : Tool) : Prop
  | idle (hnone : u.session.request? = none) (hsame : t' = u)
  | unsolved {r : RouteRequest} {e : EngineFailure} (hrequest : u.session.request? = some r)
      (hanswer : u.world.route r = .ok (.error e)) (hreported : t' = u.report .noGeometricSolution)
  | finished {r : RouteRequest} {g : RouteGeometry} (hrequest : u.session.request? = some r)
      (hanswer : u.world.route r = .ok (.ok g)) (hlast : finish = true ∨ g.reachedTarget = true)
      (h : u.finishRoute g = .ok t')
  | bare {r : RouteRequest} {g : RouteGeometry} (hrequest : u.session.request? = some r)
      (hanswer : u.world.route r = .ok (.ok g)) (hbare : g.items = []) (hsame : t' = u)
  | extended {r : RouteRequest} {g : RouteGeometry} (hrequest : u.session.request? = some r)
      (hanswer : u.world.route r = .ok (.ok g)) (hopen : finish = false)
      (hmissed : g.reachedTarget = false) (hcopper : g.items ≠ [])
      (hextended : t' = u.mapSession fun s => s.extendRoute g)

/-- A fix moves the head, and then comes to one of these. -/
theorem fixRoute_eq_ok {t t' : Tool} {p : Point} {id : Option ItemId} {finish : Bool}
    (h : t.fixRoute p id finish = .ok t') :
    ∃ u, t.moveHead p id ((t.session.route?.map RouteOp.ortho).getD false) = .ok u ∧
      u.FixOutcome finish t' := by
  obtain ⟨u, hmove, h⟩ := Checked.bind_eq_ok.mp h
  refine ⟨u, hmove, ?_⟩
  split at h
  · next hnone =>
      cases h
      exact .idle hnone rfl
  · next r hrequest =>
      obtain ⟨answer, hanswer, h⟩ := Checked.bind_eq_ok.mp h
      cases answer with
      | error e =>
          cases h
          exact .unsolved hrequest hanswer rfl
      | ok g =>
          simp only at h
          split at h
          · next hlast => exact .finished hrequest hanswer (by simpa using hlast) h
          · next hopen =>
              simp only [Bool.or_eq_true, not_or, Bool.not_eq_true] at hopen
              split at h
              · next hbare =>
                  cases h
                  exact .bare hrequest hanswer (by simpa using hbare) rfl
              · next hcopper =>
                  cases h
                  exact .extended hrequest hanswer hopen.1 hopen.2 (by simpa using hcopper) rfl

/-- **What fixing a drag comes to.** -/
inductive DragOutcome (t t' : Tool) : Prop
  | idle (hnone : t.session.drag? = none) (hsame : t' = t)
  | void {op : DragOp} (hop : t.session.drag? = some op)
      (hempty : (op.drag.changeset op.allowLocked).isEmpty = true)
      (hended : t' = { t with toInteraction :=
        (t.mapSession Session.beginFix).toInteraction.finish false })
  | committed {op : DragOp} {report : CommitReport} {u : Tool} (hop : t.session.drag? = some op)
      (hsome : (op.drag.changeset op.allowLocked).isEmpty = false)
      (hcommit : (t.mapSession Session.beginFix).commit (op.drag.changeset op.allowLocked) =
        .ok (.ok report, u))
      (hended : t' = { u with toInteraction := u.toInteraction.finish true })
  | refused {op : DragOp} {reason : CommitRejection} {u : Tool}
      (hop : t.session.drag? = some op)
      (hsome : (op.drag.changeset op.allowLocked).isEmpty = false)
      (hcommit : (t.mapSession Session.beginFix).commit (op.drag.changeset op.allowLocked) =
        .ok (.error reason, u))
      (hresumed : t' = (u.report (.commitFailed reason)).mapSession Session.resume)

/-- **What becomes of a drag** that is fixed. -/
theorem fixDrag_eq_ok {t t' : Tool} (h : t.fixDrag = .ok t') : t.DragOutcome t' := by
  simp only [fixDrag] at h
  split at h
  · next hnone =>
      cases h
      exact .idle hnone rfl
  · next op hop =>
      split at h
      · next hempty =>
          cases h
          exact .void hop hempty rfl
      · next hsome =>
          rw [Bool.not_eq_true] at hsome
          obtain ⟨⟨r, u⟩, hcommit, h⟩ := Checked.bind_eq_ok.mp h
          cases r with
          | ok report =>
              cases h
              exact .committed hop hsome hcommit rfl
          | error reason =>
              cases h
              exact .refused hop hsome hcommit rfl

/-- Committing does not touch the session. -/
theorem commit_session {t t' : Tool} {c : Changeset} {r : Except CommitRejection CommitReport}
    (h : t.commit c = .ok (r, t')) : t'.session = t.session := by
  rcases commit_eq_ok h with ⟨_, rfl⟩ | ⟨_, rfl⟩ | ⟨_, _, _, _, _, _, rfl⟩ <;> rfl

/-- Neither does asking whether locked copper may change. -/
theorem mayChange_session (t : Tool) (locked : Bool) (q : Question) :
    (t.mayChange locked q).1.session = t.session := by
  unfold mayChange
  split <;> rfl

/-- Committing what is staged does nothing, or it commits a changeset and counts or
reports what became of it. -/
theorem commitStaged_eq_ok {t t' : Tool} (h : t.commitStaged = .ok t') :
    t' = t ∨ ∃ c r u, t.commit c = .ok (r, u) ∧
      (t' = u.mapSession Session.recordCommit ∨ ∃ e, t' = u.report e) := by
  unfold commitStaged at h
  split at h
  · cases h
    exact .inl rfl
  · obtain ⟨⟨r, u⟩, hcommit, h⟩ := Checked.bind_eq_ok.mp h
    refine .inr ⟨_, r, u, hcommit, ?_⟩
    cases r with
    | ok report =>
        cases h
        exact .inl rfl
    | error reason =>
        cases h
        exact .inr ⟨_, rfl⟩

end Tool

end CopperRoute
