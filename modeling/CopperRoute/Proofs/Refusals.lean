import CopperRoute.Proofs.Undoing

/-!
# Errors and what they leave

An error is told to the host, and the session goes on.  A command tells at most one, unless
it breaks an operation off first.  When it does, it leaves the tool where it was: the
boards, the count of commits, the layer and the state of the session, and the running
operation but for its head (`Tool.Unmoved`).

There is one exception.  A layer switch takes back the via at the head before it looks for
a way to the layer, and when it finds none (`Tool.Stranded`), the via is gone.

A commit that failed is one that the command may make and that the board refuses
(`Tool.FailsToCommit`).  `execute_tells` is the one place where commands are opened to see
this; `execute_hears` says it of those that break an operation off as well.
-/

namespace CopperRoute

/-- The error that an event reports. -/
def HostEvent.error? : HostEvent → Option RouterError
  | notified (.error e) => some e
  | _ => none

/-- An event that is no message reports no error. -/
theorem HostEvent.error?_of_not_isMessage {e : HostEvent} (he : e.isMessage = false) :
    e.error? = none := by
  cases e with
  | notified => cases he
  | _ => rfl

namespace Host

/-- The errors are read off the events in their order. -/
theorem errors_eq (h : Host) : h.errors = h.events.filterMap HostEvent.error? := by
  rw [errors, notifications, List.filterMap_filterMap]
  congr 1
  funext event
  cases event with
  | notified n => cases n <;> rfl
  | _ => rfl

/-- Further events add their errors. -/
theorem errors_tell (h : Host) (events : List HostEvent) :
    (h.tell events).errors = h.errors ++ events.filterMap HostEvent.error? := by
  rw [errors_eq, errors_eq, tell, List.filterMap_append]

/-- A reported error comes last. -/
@[simp] theorem errors_report (h : Host) (e : RouterError) :
    (h.report e).errors = h.errors ++ [e] :=
  h.errors_tell [.notified (.error e)]

/-- Events that are no errors leave the errors as they are. -/
theorem errors_tell_of_none (h : Host) {events : List HostEvent}
    (hnone : events.filterMap HostEvent.error? = []) : (h.tell events).errors = h.errors := by
  rw [errors_tell, hnone, List.append_nil]

/-- A question is no error. -/
@[simp] theorem errors_ask (h : Host) (q : Question) : (h.ask q).1.errors = h.errors :=
  h.errors_tell_of_none rfl

/-- Neither taking nor giving back the edit block is an error. -/
@[simp] theorem errors_acquire (h : Host) (net : Option NetCode) :
    (h.acquire net).errors = h.errors := by
  rw [errors_eq, errors_eq, filterMap_acquire (fun _ => HostEvent.error?_of_not_isMessage)]

/-- Giving the edit block back is no error. -/
@[simp] theorem errors_release (h : Host) : h.release.errors = h.errors := by
  rw [errors_eq, errors_eq, filterMap_release (fun _ => HostEvent.error?_of_not_isMessage)]

end Host

namespace Interaction

/-- What is read off messages alone, letting go of the host does not change. -/
theorem filterMap_releasedHost {α : Type} {f : HostEvent → Option α}
    (hf : ∀ e : HostEvent, e.isMessage = false → f e = none) (i : Interaction) :
    i.releasedHost.events.filterMap f = i.host.events.filterMap f := by
  unfold releasedHost
  split
  · rfl
  · exact Host.filterMap_release hf i.host

/-- Breaking an operation off tells the host no message. -/
theorem filterMap_cancel {α : Type} {f : HostEvent → Option α}
    (hf : ∀ e : HostEvent, e.isMessage = false → f e = none) (i : Interaction) :
    i.cancel.1.host.events.filterMap f = i.host.events.filterMap f := by
  unfold cancel
  split
  · rfl
  · exact filterMap_releasedHost hf i

/-- The end of an operation reports no error. -/
@[simp] theorem errors_releasedHost (i : Interaction) :
    i.releasedHost.errors = i.host.errors := by
  rw [Host.errors_eq, Host.errors_eq,
    i.filterMap_releasedHost fun _ => HostEvent.error?_of_not_isMessage]

/-- Breaking an operation off reports no error by itself. -/
@[simp] theorem errors_cancel (i : Interaction) : i.cancel.1.host.errors = i.host.errors := by
  rw [Host.errors_eq, Host.errors_eq,
    i.filterMap_cancel fun _ => HostEvent.error?_of_not_isMessage]

end Interaction

/-- The commands that only an intent with several commands leads to.  They tell nothing. -/
inductive Command.Silent : Command → Prop
  | undo : Silent .undo
  | redo : Silent .redo
  | resetSession : Silent .resetSession
  | clearWorld : Silent .clearWorld
  | syncWorld : Silent .syncWorld

/-- A drag that cannot follow the pointer has found no way for what it drags. -/
theorem Drag.eq_of_moveTo_error {d : Drag} {w : World} {p : Point} {e : RouterError}
    (h : d.moveTo w p = .ok (.error e)) : e = .noGeometricSolution := by
  unfold moveTo moveWith at h
  split at h
  · cases h
  · obtain ⟨answer, _, h⟩ := Checked.bind_eq_ok.mp h
    cases answer with
    | ok _ => cases h
    | error _ =>
        cases h
        rfl

/-- Where a drag runs there is no route. -/
theorem Session.route?_of_drag {s : Session} {op : DragOp} (h : s.drag? = some op) :
    s.route? = none := by
  simp only [route?, drag?_eq_some.mp h]

namespace Tool

variable {t u t' : Tool} {c : Command}

/-- **Unmoved.**  The boards stay, the session counts the same commits and has the same
layer and state, and what runs goes on: a route with another head at most, a drag with the
items that were grabbed and displayed. -/
structure Unmoved (t t' : Tool) : Prop where
  board : t'.board = t.board
  history : t'.history = t.history
  world : t'.world = t.world
  committed : t'.session.committed = t.session.committed
  activeLayer : t'.session.activeLayer = t.session.activeLayer
  state : t'.session.state = t.session.state
  route : ∀ op, t.session.route? = some op →
    ∃ op', t'.session.route? = some op' ∧ op.Redraws op'
  drag : ∀ op, t.session.drag? = some op →
    ∃ op', t'.session.drag? = some op' ∧ op'.drag = op.drag

/-- The log, the requests and what the host hears do not count. -/
theorem Unmoved.of_eq (hboard : u.board = t.board) (hhistory : u.history = t.history)
    (hworld : u.world = t.world) (hsession : u.session = t.session) : t.Unmoved u := by
  refine ⟨hboard, hhistory, hworld, ?_, ?_, ?_, fun op hop => ⟨op, ?_, RouteOp.Redraws.refl op⟩,
    fun op hop => ⟨op, ?_, rfl⟩⟩ <;> rw [hsession]
  · exact hop
  · exact hop

theorem Unmoved.refl (t : Tool) : t.Unmoved t := .of_eq rfl rfl rfl rfl

/-- What is unmoved twice is unmoved. -/
theorem Unmoved.trans (htu : t.Unmoved u) (hut : u.Unmoved t') : t.Unmoved t' := by
  refine ⟨hut.board.trans htu.board, hut.history.trans htu.history, hut.world.trans htu.world,
    hut.committed.trans htu.committed, hut.activeLayer.trans htu.activeLayer,
    hut.state.trans htu.state, fun op hop => ?_, fun op hop => ?_⟩
  · obtain ⟨op₁, hop₁, hsame₁⟩ := htu.route op hop
    obtain ⟨op', hop', hsame⟩ := hut.route op₁ hop₁
    exact ⟨op', hop', hsame₁.trans hsame⟩
  · obtain ⟨op₁, hop₁, hsame₁⟩ := htu.drag op hop
    obtain ⟨op', hop', hsame⟩ := hut.drag op₁ hop₁
    exact ⟨op', hop', hsame.trans hsame₁⟩

/-- Only how the pointer is followed, and what the host hears, may differ. -/
theorem unmoved_interaction (t : Tool) {i : Interaction}
    (hcommitted : i.session.committed = t.session.committed)
    (hlayer : i.session.activeLayer = t.session.activeLayer)
    (hstate : i.session.state = t.session.state)
    (hoperation : i.session.operation = t.session.operation) :
    t.Unmoved { t with toInteraction := i } := by
  refine ⟨rfl, rfl, rfl, hcommitted, hlayer, hstate, fun op hop => ?_, fun op hop => ?_⟩
  · refine ⟨op, ?_, RouteOp.Redraws.refl op⟩
    rw [Session.route?_eq_some] at hop ⊢
    exact hoperation.trans hop
  · refine ⟨op, ?_, rfl⟩
    rw [Session.drag?_eq_some] at hop ⊢
    exact hoperation.trans hop

/-- A reported error moves nothing. -/
theorem unmoved_report (t : Tool) (e : RouterError) : t.Unmoved (t.report e) :=
  t.unmoved_interaction (i := ⟨t.session, t.host.report e⟩) rfl rfl rfl rfl

/-- Another head does not move the tool. -/
theorem unmoved_redraw (t : Tool) {f : RouteOp → RouteOp}
    (hf : ∀ op : RouteOp, op.Redraws (f op)) : t.Unmoved (t.mapSession fun s => s.mapRoute f) := by
  refine ⟨rfl, rfl, rfl, t.session.mapRoute_committed f, t.session.mapRoute_activeLayer f,
    t.session.mapRoute_state f, fun op hop => ⟨f op, ?_, hf op⟩, fun op hop => ⟨op, ?_, rfl⟩⟩
  · rw [mapSession, Session.route?_mapRoute, hop, Option.map_some]
  · rw [mapSession, Session.drag?_mapRoute, hop]

/-- A changeset that the command may commit is refused for this reason. -/
def FailsToCommit (t : Tool) (c : Command) (reason : CommitRejection) : Prop :=
  ∃ changes, t.Commits c changes ∧ t.board.rejection? changes = some reason

/-- **No way to a layer.**  The engine refuses to take the head there, or there is no legal
through via to it. -/
inductive Stranded (t : Tool) (command : LayerCommand) : Prop
  | mk {op : RouteOp} {layer : LayerId} (hop : t.session.route? = some op)
      (hresolve : command.resolve op.withdrawVia.layer t.board.enabledLayers = some layer)
      (hno : (∃ reason, t.world.switchLayer (t.asks op.withdrawVia) layer = .refused reason) ∨
        ∃ rejection, Via.resolve ⟨op.withdrawVia.layer, some layer, .through⟩
          (ViaEnvironment.ofBoard t.board) = .error rejection)

/-- **What a command tells**: nothing, or an error that leaves the tool where it was, or
that a layer switch found no way. -/
inductive Tells (t : Tool) (c : Command) (t' : Tool) : Prop
  | nothing (htold : t'.host.errors = t.host.errors)
  | refused {e : RouterError} (htold : t'.host.errors = t.host.errors ++ [e])
      (hstays : t.Unmoved t')
      (hcause : ∀ reason, e = .commitFailed reason → t.FailsToCommit c reason)
  | stranded {command : LayerCommand} {e : RouterError} (hcommand : c = .switchLayer command)
      (hstranded : t.Stranded command) (htold : t'.host.errors = t.host.errors ++ [e])
      (hcause : ∀ reason, e ≠ .commitFailed reason)

/-- The same of commands that break an operation off first: some errors are told, and a
commit that failed among them was one of the command. -/
def Hears (t : Tool) (c : Command) (t' : Tool) : Prop :=
  ∃ es, t'.host.errors = t.host.errors ++ es ∧
    ∀ reason, RouterError.commitFailed reason ∈ es → t.FailsToCommit c reason

/-- What is told is heard. -/
theorem Tells.hears (h : t.Tells c t') : t.Hears c t' := by
  cases h with
  | nothing htold => exact ⟨[], by rw [htold, List.append_nil], nofun⟩
  | @refused e htold _ hcause =>
      refine ⟨[e], htold, fun reason hreason => ?_⟩
      exact hcause reason (List.mem_singleton.mp hreason).symm
  | @stranded _ e _ _ htold hcause =>
      refine ⟨[e], htold, fun reason hreason => ?_⟩
      exact absurd (List.mem_singleton.mp hreason).symm (hcause reason)

/-- A command that is refused at once. -/
theorem tells_report {e : RouterError} (he : ∀ reason, e ≠ .commitFailed reason) :
    t.Tells c (t.report e) :=
  .refused (t.host.errors_report e) (t.unmoved_report e) fun reason h => absurd h (he reason)

/-- A command that is refused after it has only followed the pointer. -/
theorem Unmoved.tells_report {e : RouterError} (h : t.Unmoved u) (hhost : u.host = t.host)
    (hcause : ∀ reason, e = .commitFailed reason → t.FailsToCommit c reason) :
    t.Tells c (u.report e) := by
  refine .refused ?_ (h.trans (u.unmoved_report e)) hcause
  rw [← hhost]
  exact u.host.errors_report e

/-- Asking for the head tells the host nothing. -/
theorem refreshHead_host (h : t.refreshHead = .ok t') : t'.host = t.host := by
  rcases refreshHead_eq_ok h with rfl | ⟨g, rfl⟩
  · rfl
  · rfl

/-- A new head tells nothing. -/
theorem refreshHead_tells (h : u.refreshHead = .ok t') (hhost : u.host.errors = t.host.errors) :
    t.Tells c t' :=
  .nothing (by rw [refreshHead_host h, hhost])

/-- A new head moves nothing. -/
theorem refreshHead_unmoved (h : t.refreshHead = .ok t') : t.Unmoved t' := by
  rcases refreshHead_eq_ok h with rfl | ⟨g, rfl⟩
  · exact Unmoved.refl _
  · exact t.unmoved_redraw fun op => op.redraws_head (some g)

/-- Moving the head moves nothing but the head, and tells the host nothing. -/
theorem moveHead_unmoved {p : Point} {id : Option ItemId} {ortho : Bool}
    (h : t.moveHead p id ortho = .ok t') : t.Unmoved t' ∧ t'.host = t.host := by
  let followed := t.mapSession fun s => { s with cursor := p }
  have hfollowed : t.Unmoved followed :=
    t.unmoved_interaction (i := ⟨{ t.session with cursor := p }, t.host⟩) rfl rfl rfl rfl
  have haimed : followed.Unmoved (followed.mapSession fun s => s.mapRoute fun op =>
      op.aim p id ortho) :=
    followed.unmoved_redraw fun op => op.redraws_aim p id ortho
  have hrefresh : (followed.mapSession fun s => s.mapRoute fun op =>
      op.aim p id ortho).refreshHead = .ok t' := h
  have hsame := refreshHead_host hrefresh
  exact ⟨(hfollowed.trans haimed).trans (refreshHead_unmoved hrefresh), hsame⟩

/-- A commit is no error, whatever becomes of it. -/
theorem commit_errors {changes : Changeset} {r : Except CommitRejection CommitReport}
    (h : t.commit changes = .ok (r, t')) : t'.host.errors = t.host.errors := by
  rcases commit_eq_ok h with ⟨_, rfl⟩ | ⟨_, rfl⟩ | ⟨board, report, history, _, _, _, rfl⟩
  · rfl
  · exact t.host.errors_tell_of_none rfl
  · exact t.host.errors_tell_of_none rfl

/-- A refused changeset leaves the tool as it is. -/
theorem commit_refused {changes : Changeset} {reason : CommitRejection}
    (h : t.commit changes = .ok (.error reason, t')) :
    t' = t ∧ t.board.rejection? changes = some reason := by
  obtain ⟨outcome, houtcome, h⟩ := Checked.bind_eq_ok.mp h
  cases outcome with
  | untouched => cases h
  | applied board report =>
      obtain ⟨history, _, h⟩ := Checked.bind_eq_ok.mp h
      cases h
  | rejected reason' =>
      cases h
      exact ⟨rfl, Board.commit_eq_rejected_iff.mp houtcome⟩

/-- A fix that the board refuses leaves the tool where it was before it. -/
theorem resume_unmoved (t : Tool) (e : RouterError) :
    t.Unmoved (((t.mapSession Session.beginFix).report e).mapSession Session.resume) :=
  t.unmoved_interaction (i := ⟨t.session.beginFix.resume, t.host.report e⟩) rfl rfl rfl rfl

/-- A route that cannot be finished is refused with an error, and stays. -/
theorem finishRoute_tells {op : RouteOp} {g : RouteGeometry} (hu : t.Unmoved u)
    (hhost : u.host = t.host) (hop : u.session.route? = some op)
    (hcommits : t.Commits c (op.changeset (some g))) (h : u.finishRoute g = .ok t') :
    t.Tells c t' := by
  obtain ⟨⟨r, v⟩, hcommit, h⟩ := Checked.bind_eq_ok.mp h
  rw [hop, Option.map_some, Option.getD_some] at hcommit
  cases r with
  | ok report =>
      cases h
      refine .nothing ?_
      show v.toInteraction.releasedHost.errors = t.host.errors
      rw [Interaction.errors_releasedHost, commit_errors hcommit, ← hhost]
      rfl
  | error reason =>
      cases h
      obtain ⟨rfl, hrejection⟩ := commit_refused hcommit
      refine .refused (e := .commitFailed reason) ?_ (hu.trans (u.resume_unmoved _)) ?_
      · rw [← hhost]
        exact u.host.errors_report _
      · intro reason' he
        cases he
        refine ⟨_, hcommits, ?_⟩
        rw [← hu.board]
        exact hrejection

/-- Fixing a head tells why it was refused. -/
theorem fixRoute_tells {p : Point} {id : Option ItemId} {finish : Bool}
    (h : t.fixRoute p id finish = .ok t') : t.Tells (.fixRoute p id finish) t' := by
  obtain ⟨u, hmove, houtcome⟩ := fixRoute_eq_ok h
  obtain ⟨hu, hhost⟩ := moveHead_unmoved hmove
  cases houtcome with
  | idle _ hsame | bare _ _ _ hsame =>
      rw [hsame]
      exact .nothing (congrArg Host.errors hhost)
  | unsolved _ _ hreported =>
      rw [hreported]
      exact hu.tells_report hhost fun reason he => by cases he
  | finished hrequest hanswer hlast hfinish =>
      obtain ⟨op, hop, hcommits⟩ := commits_finished hmove hrequest hanswer hlast
      exact finishRoute_tells hu hhost hop hcommits hfinish
  | extended _ _ _ _ _ hextended =>
      rw [hextended]
      exact .nothing (congrArg Host.errors hhost)

/-- Without an operation nothing moves but the pointer when a start is refused. -/
theorem startRouting_tells {p : Point} {id : Option ItemId} (hidle : t.makeIdle = .ok u)
    (hstate : u.session.state = .idle)
    (h : t.startRouting p id = .ok t') : u.Tells (.startRouting p id) t' := by
  obtain ⟨u', hidle', h⟩ := Checked.bind_eq_ok.mp h
  cases hidle.symm.trans hidle'
  have hback (host : Host) (hhost : host.errors = u.host.errors) (e : RouterError)
      (he : ∀ reason, e ≠ .commitFailed reason) :
      u.Tells (.startRouting p id) { u with
        session := (u.prepareStart p).session.abortPrepare, host := host.report e } := by
    refine .refused (e := e) ?_ ?_ fun reason hreason => absurd hreason (he reason)
    · rw [← hhost]
      exact host.errors_report e
    · exact u.unmoved_interaction (i := ⟨(u.prepareStart p).session.abortPrepare, host.report e⟩)
        rfl rfl hstate.symm rfl
  simp only at h
  split at h
  · simp only [openRoute] at h
    obtain ⟨start, _, h⟩ := Checked.bind_eq_ok.mp h
    obtain ⟨refusal, _, h⟩ := Checked.bind_eq_ok.mp h
    cases refusal with
    | some reason =>
        cases h
        refine hback _ ?_ _ fun reason he => by cases he
        exact (Host.errors_release _).trans (Host.errors_acquire _ _)
    | none =>
        cases h
        refine .nothing ?_
        exact (Interaction.errors_releasedHost _).trans (Host.errors_acquire _ _)
  · cases h
    exact hback u.host rfl _ fun reason he => by cases he

/-- A via that is not to be had leaves the route as it is. -/
theorem toggleVia_tells {viaType : ViaType} {target : Option LayerId}
    (h : u.toggleVia viaType target = .ok t') (hu : t.Unmoved u) (hhost : u.host = t.host) :
    t.Tells c t' := by
  have hinfo (hint : Hint) : (u.notify (.info hint)).host.errors = t.host.errors := by
    rw [← hhost]
    exact u.host.errors_tell_of_none rfl
  unfold toggleVia at h
  split at h
  · cases h
    exact .nothing (hinfo _)
  · split at h
    · exact refreshHead_tells h (congrArg Host.errors hhost)
    · split at h
      · next rejection _ =>
          cases h
          refine hu.tells_report hhost fun reason he => ?_
          cases rejection <;> cases he
      · exact refreshHead_tells h (congrArg Host.errors hhost)

/-- A via that is not legal here is refused with an error, and nothing is moved. -/
theorem placeVia_tells {viaType : ViaType} {target : Option LayerId}
    (h : t.placeVia viaType target = .ok t') : t.Tells (.placeVia viaType target) t' := by
  refine toggleVia_tells h ?_ rfl
  exact t.unmoved_interaction (i := ⟨{ t.session with pendingViaTarget := none }, t.host⟩)
    rfl rfl rfl rfl

/-- A via to another layer is hung, or there is no legal one. -/
theorem toggleVia_hangs {op : RouteOp} {target : Option LayerId} (hop : u.session.route? = some op)
    (hvia : op.via = none) (h : u.toggleVia .through target = .ok t') :
    t'.host.errors = u.host.errors ∨
      ∃ rejection, t'.host.errors = u.host.errors ++ [RouterError.ofVia rejection] ∧
        Via.resolve ⟨op.layer, target, .through⟩ (ViaEnvironment.ofBoard u.board) =
          .error rejection := by
  simp only [toggleVia, hop, hvia, Option.isSome_none, Bool.false_eq_true, if_false] at h
  split at h
  · next rejection hrejection =>
      cases h
      exact .inr ⟨rejection, u.host.errors_report _, hrejection⟩
  · have hsame := refreshHead_host h
    exact .inl (congrArg Host.errors hsame)

/-- **A layer switch** tells an error only when it is stranded. -/
theorem switchLayer_tells {command : LayerCommand} (h : t.switchLayer command = .ok t') :
    t.Tells (.switchLayer command) t' := by
  have hroute : (t.mapSession Session.withdrawVia).session.route? =
      t.session.route?.map RouteOp.withdrawVia := t.session.route?_withdrawVia
  simp only [switchLayer, goToLayer] at h
  split at h
  · cases h
    exact .nothing rfl
  · cases h
    exact .nothing rfl
  · next layer r hresolve hrequest =>
      obtain ⟨way, hway, hasked⟩ := Option.map_eq_some_iff.mp hrequest
      rw [hway, Option.map_some, Option.getD_some] at hresolve
      rw [hroute] at hway
      obtain ⟨op, hop, rfl⟩ := Option.map_eq_some_iff.mp hway
      have hasks : r = t.asks op.withdrawVia := by
        rw [← t.asks_withdrawVia]
        exact hasked.symm
      unfold routeToLayer at h
      split at h
      · exact refreshHead_tells h rfl
      · have hbare : ((t.mapSession Session.withdrawVia).mapSession fun s =>
            { s with pendingViaTarget := none }).session.route? = some op.withdrawVia := by
          show (t.mapSession Session.withdrawVia).session.route? = _
          rw [hroute, hop, Option.map_some]
        rcases toggleVia_hangs hbare op.via_withdrawVia h with hsame | ⟨rejection, htold, hnone⟩
        · exact .nothing hsame
        · refine .stranded rfl ⟨hop, hresolve, .inr ⟨rejection, hnone⟩⟩ htold fun reason he => ?_
          cases rejection <;> cases he
      · next reason hrefused =>
          cases h
          rw [hasks] at hrefused
          refine .stranded rfl ⟨hop, hresolve, .inl ⟨reason, hrefused⟩⟩ (Host.errors_report _ _) ?_
          exact fun reason' he => by cases he

/-- The question for locked copper is no error, whatever the answer is. -/
theorem mayChange_errors (t : Tool) (locked : Bool) (q : Question) :
    (t.mayChange locked q).1.host.errors = t.host.errors := by
  unfold mayChange
  split
  · rfl
  · exact t.host.errors_ask q

/-- Beginning a drag reports no error. -/
theorem beginDrag_errors (t : Tool) (grabbed : List Item) (anchor : Point) (mode : DragMode)
    (locked : Bool) : (t.beginDrag grabbed anchor mode locked).host.errors = t.host.errors := by
  have hasked := t.mayChange_errors locked .dragLocked
  unfold beginDrag
  generalize t.mayChange locked .dragLocked = asked at hasked
  obtain ⟨u, confirmed⟩ := asked
  cases confirmed with
  | false => exact hasked
  | true =>
      refine ((Interaction.errors_releasedHost _).trans ?_).trans hasked
      exact Host.errors_acquire _ _

/-- Once nothing runs, grabbing items tells why it was refused. -/
theorem startDrag_tells {ids : List ItemId} {anchor : Point} {mode : DragMode}
    (hidle : t.makeIdle = .ok u) (h : t.startDrag ids anchor mode = .ok t') :
    u.Tells (.startDrag ids anchor mode) t' := by
  obtain ⟨u', hidle', h⟩ := Checked.bind_eq_ok.mp h
  cases hidle.symm.trans hidle'
  split at h
  · cases h
    exact tells_report fun reason he => by cases he
  · cases h
    exact .nothing (u.beginDrag_errors _ _ _ _)

/-- Once nothing runs, grabbing a footprint tells why it was refused. -/
theorem startFootprintDrag_tells {id : FootprintId} {anchor : Point} {mode : DragMode}
    (hidle : t.makeIdle = .ok u) (h : t.startFootprintDrag id anchor mode = .ok t') :
    u.Tells (.startFootprintDrag id anchor mode) t' := by
  obtain ⟨u', hidle', h⟩ := Checked.bind_eq_ok.mp h
  cases hidle.symm.trans hidle'
  split at h
  · cases h
    exact tells_report fun reason he => by cases he
  · split at h
    · cases h
      exact tells_report fun reason he => by cases he
    · cases h
      exact .nothing (u.beginDrag_errors _ _ _ _)

/-- A drag that cannot follow the pointer stays as it is displayed. -/
theorem moveDrag_tells {p : Point} (h : t.moveDrag p = .ok t') : t.Tells (.moveDrag p) t' := by
  simp only [moveDrag] at h
  split at h
  · cases h
    exact .nothing rfl
  · next op hop =>
      have hdrag : t.session.drag? = some op := hop
      have hroute : t.session.route? = none := Session.route?_of_drag hdrag
      obtain ⟨answer, hanswer, h⟩ := Checked.bind_eq_ok.mp h
      split at h
      · cases h
        exact .nothing rfl
      · split at h
        · cases h
          exact .nothing rfl
        · cases h
          refine .refused (Host.errors_report _ _) ?_ fun reason he => ?_
          · refine ⟨rfl, rfl, rfl, rfl, rfl, rfl, fun op' hop' => ?_, fun op' hop' => ?_⟩
            · cases hroute.symm.trans hop'
            · cases hdrag.symm.trans hop'
              exact ⟨_, rfl, rfl⟩
          · cases (Drag.eq_of_moveTo_error hanswer).symm.trans he

/-- A drag that cannot be fixed is refused with an error, and stays. -/
theorem fixDrag_tells (h : t.fixDrag = .ok t') : t.Tells .fixDrag t' := by
  cases fixDrag_eq_ok h with
  | idle _ hsame =>
      rw [hsame]
      exact .nothing rfl
  | void _ _ hended =>
      rw [hended]
      exact .nothing (Interaction.errors_releasedHost _)
  | committed _ _ hcommit hended =>
      rw [hended]
      have hsame := commit_errors hcommit
      exact .nothing ((Interaction.errors_releasedHost _).trans hsame)
  | refused hop _ hcommit hresumed =>
      obtain ⟨rfl, hrejection⟩ := commit_refused hcommit
      rw [hresumed]
      refine .refused (Host.errors_report _ _) (t.resume_unmoved _) fun reason' he => ?_
      cases he
      exact ⟨_, .dragged hop, hrejection⟩

/-- The question for locked copper moves nothing. -/
theorem mayChange_unmoved (t : Tool) (locked : Bool) (q : Question) :
    t.Unmoved (t.mayChange locked q).1 := by
  unfold mayChange
  split
  · exact Unmoved.refl t
  · exact t.unmoved_interaction (i := ⟨t.session, (t.host.ask q).1⟩) rfl rfl rfl rfl

/-- A track that cannot be broken is refused with an error. -/
theorem breakTrack_tells {p : Point} (h : t.breakTrack p = .ok t') :
    t.Tells (.breakTrack p) t' := by
  unfold breakTrack at h
  split at h
  · cases h
    exact .nothing rfl
  · next hbusy =>
      obtain ⟨found, _, h⟩ := Checked.bind_eq_ok.mp h
      split at h
      · cases h
        exact tells_report fun reason he => by cases he
      · next i _ =>
          have hasked := t.mayChange_unmoved i.locked .breakLocked
          have herrors := t.mayChange_errors i.locked .breakLocked
          have hreleases := t.releases_of_mayChange i.locked .breakLocked
          generalize t.mayChange i.locked .breakLocked = asked at h hasked herrors hreleases
          obtain ⟨u, confirmed⟩ := asked
          cases confirmed with
          | false =>
              cases h
              exact .nothing herrors
          | true =>
              obtain ⟨split?, hsplit, h⟩ := Checked.bind_eq_ok.mp h
              cases split? with
              | none =>
                  cases h
                  exact .nothing herrors
              | some changes =>
                  obtain ⟨⟨r, v⟩, hcommit, h⟩ := Checked.bind_eq_ok.mp h
                  cases r with
                  | ok report =>
                      cases h
                      exact .nothing ((commit_errors hcommit).trans herrors)
                  | error reason =>
                      cases h
                      obtain ⟨rfl, hrejection⟩ := commit_refused hcommit
                      refine .refused (e := .commitFailed reason) ?_
                        (hasked.trans (v.unmoved_report _)) fun reason' he => ?_
                      · rw [← herrors]
                        exact v.host.errors_report _
                      · cases he
                        have hboard : v.board = t.board := hasked.board
                        rw [hboard] at hsplit hrejection
                        exact ⟨changes, .broken hsplit (by simpa using hbusy) (hreleases rfl),
                          hrejection⟩

/-- Changing the design settings tells nothing. -/
theorem changeDesign_tells {change : Design → Design} (h : t.changeDesign change = .ok t') :
    t.Tells c t' :=
  refreshHead_tells h (t.host.errors_tell_of_none rfl)

/-- A size command that checks its values before it changes the settings. -/
theorem checkedDesign_tells {change : Design → Design} {bad : Prop} [Decidable bad]
    {rejection : InputRejection}
    (h : (if bad then pure (t.report (.inputRejected rejection)) else t.changeDesign change) =
      .ok t') : t.Tells c t' := by
  split at h
  · cases h
    exact tells_report fun reason he => by cases he
  · exact changeDesign_tells h

/-- Ending what runs tells at most that its fixed steps could not be committed. -/
theorem stopOperation_hears {stopped : Bool} (h : t.stopOperation = .ok (t', stopped)) :
    ∃ es, t'.host.errors = t.host.errors ++ es ∧
      ∀ reason, RouterError.commitFailed reason ∈ es → ∃ op, t.session.route? = some op ∧
        t.board.rejection? (op.changeset none) = some reason := by
  obtain ⟨u, hstaged, h⟩ := Checked.bind_eq_ok.mp h
  have hcancelled : t'.host.errors = u.host.errors := by
    have hsame := u.toInteraction.errors_cancel
    generalize u.toInteraction.cancel = cancelled at h hsame
    cases h
    exact hsame
  unfold commitStaged at hstaged
  split at hstaged
  · cases hstaged
    exact ⟨[], by rw [hcancelled, List.append_nil], nofun⟩
  · next changes hchanges =>
      obtain ⟨⟨r, v⟩, hcommit, hstaged⟩ := Checked.bind_eq_ok.mp hstaged
      cases r with
      | ok report =>
          cases hstaged
          have hsame : v.host.errors = t.host.errors := commit_errors hcommit
          refine ⟨[], ?_, nofun⟩
          rw [hcancelled, List.append_nil]
          exact hsame
      | error reason =>
          cases hstaged
          obtain ⟨rfl, hrejection⟩ := commit_refused hcommit
          refine ⟨[.commitFailed reason], ?_, fun reason' hreason => ?_⟩
          · rw [hcancelled]
            exact v.host.errors_report _
          · cases List.mem_singleton.mp hreason
            have hroute := (Option.filter_eq_some_iff.mp hchanges).1
            obtain ⟨op, hop, rfl⟩ := Option.map_eq_some_iff.mp hroute
            exact ⟨op, hop, hrejection⟩

/-- Without fixed steps, ending what runs tells nothing. -/
theorem stopOperation_errors {stopped : Bool} (hnone : t.stagedChanges? = none)
    (h : t.stopOperation = .ok (t', stopped)) : t'.host.errors = t.host.errors := by
  obtain ⟨u, hstaged, h⟩ := Checked.bind_eq_ok.mp h
  simp only [commitStaged, hnone] at hstaged
  cases hstaged
  have hsame := t.toInteraction.errors_cancel
  generalize t.toInteraction.cancel = cancelled at h hsame
  cases h
  exact hsame

/-- Making room for another operation reports a failed commit at most. -/
theorem makeIdle_hears (hc : c.Interrupts) (h : t.makeIdle = .ok t') : t.Hears c t' := by
  unfold makeIdle at h
  split at h
  · cases h
    exact ⟨[], by rw [List.append_nil], nofun⟩
  · obtain ⟨⟨u, stopped⟩, hstop, h⟩ := Checked.bind_eq_ok.mp h
    cases h
    obtain ⟨es, hes, hcause⟩ := stopOperation_hears hstop
    refine ⟨es, hes, fun reason hreason => ?_⟩
    obtain ⟨op, hop, hrejection⟩ := hcause reason hreason
    exact ⟨_, .staged hop hc, hrejection⟩

/-- Cancelling reports a failed commit at most. -/
theorem cancelOperation_hears (h : t.cancelOperation = .ok t') : t.Hears .cancelOperation t' := by
  obtain ⟨⟨u, stopped⟩, hstop, h⟩ := Checked.bind_eq_ok.mp h
  obtain ⟨es, hes, hcause⟩ := stopOperation_hears hstop
  have hsame : t'.host.errors = u.host.errors := by
    cases h
    split <;> rfl
  refine ⟨es, hsame.trans hes, fun reason hreason => ?_⟩
  obtain ⟨op, hop, hrejection⟩ := hcause reason hreason
  exact ⟨_, .staged hop .cancelOperation, hrejection⟩

/-- What is told behind the end of an operation is no failed commit. -/
theorem Hears.trans_tells (h : t.Hears c u) (hc : c.Interrupts)
    (hnone : u.session.operation = .none) (htells : u.Tells c t') : t.Hears c t' := by
  obtain ⟨es, hes, hcause⟩ := h
  obtain ⟨more, hmore, hcause'⟩ := htells.hears
  refine ⟨es ++ more, by rw [hmore, hes, List.append_assoc], fun reason hreason => ?_⟩
  rcases List.mem_append.mp hreason with hfirst | hsecond
  · exact hcause reason hfirst
  · obtain ⟨changes, hcommits, _⟩ := hcause' reason hsecond
    cases hcommits with
    | staged hop => cases (Session.route?_of_none hnone).symm.trans hop
    | finished | dragged | broken => cases hc

/-- A silent command leaves the host alone. -/
theorem execute_silent {refusal : Option CommandRefusal} (hc : c.Silent)
    (h : t.execute c = .ok (t', refusal)) : t'.host = t.host := by
  cases hc with
  | undo =>
      have hundone : t.undo.1 = t' := congrArg Prod.fst (Checked.pure_eq_ok.mp h)
      rw [← hundone, undo]
      split
      · rfl
      · split <;> rfl
  | redo =>
      have hredone : t.redo.1 = t' := congrArg Prod.fst (Checked.pure_eq_ok.mp h)
      rw [← hredone, redo]
      split
      · rfl
      · split <;> rfl
  | resetSession | clearWorld | syncWorld =>
      cases h
      rfl

/-- An idle tool has nothing to end. -/
theorem makeIdle_of_isIdle (hidle : t.session.isIdle = true) : t.makeIdle = .ok t := by
  rw [makeIdle, if_pos hidle]
  rfl

/-- **What an error leaves.**  Every command that does not break an operation off tells
nothing, or an error that leaves the tool where it was, or a layer switch is stranded. -/
theorem execute_tells {refusal : Option CommandRefusal} (ht : t.Orderly)
    (hc : t.session.isIdle = true ∨ ¬ c.Interrupts) (h : t.execute c = .ok (t', refusal)) :
    t.Tells c t' := by
  have hidle (hinterrupts : c.Interrupts) : t.session.isIdle = true :=
    hc.resolve_right fun hnot => hnot hinterrupts
  cases c with
  | startRouting p id =>
      have hnow := hidle (.startRouting p id)
      exact startRouting_tells (makeIdle_of_isIdle hnow) (by simpa [Session.isIdle] using hnow)
        (Checked.of_tagged h)
  | startDrag ids anchor mode =>
      exact startDrag_tells (makeIdle_of_isIdle (hidle (.startDrag ids anchor mode)))
        (Checked.of_tagged h)
  | startFootprintDrag id anchor mode =>
      exact startFootprintDrag_tells
        (makeIdle_of_isIdle (hidle (.startFootprintDrag id anchor mode))) (Checked.of_tagged h)
  | cancelOperation =>
      -- without an operation there is nothing to commit and nothing to cancel
      have hnow := hidle .cancelOperation
      have hstaged : (t.mapSession fun s =>
          { s with pendingViaTarget := none }).stagedChanges? = none := ht.staged_of_idle hnow
      obtain ⟨⟨u, stopped⟩, hstop, h⟩ := Checked.bind_eq_ok.mp (Checked.of_tagged h)
      have hsame := stopOperation_errors hstaged hstop
      cases h
      refine .nothing ?_
      split
      · exact hsame
      · exact hsame
  | moveHead p id ortho =>
      have hmoved := moveHead_unmoved (Checked.of_tagged h)
      exact .nothing (congrArg Host.errors hmoved.2)
  | fixRoute p id finish => exact fixRoute_tells (Checked.of_tagged h)
  | undoLastSegment =>
      have hundo := Checked.of_tagged h
      unfold undoLastSegment at hundo
      split at hundo
      · cases hundo
        exact .nothing rfl
      · exact refreshHead_tells hundo rfl
  | placeVia viaType target => exact placeVia_tells (Checked.of_tagged h)
  | switchLayer command => exact switchLayer_tells (Checked.of_tagged h)
  | flipPosture | toggleRounding => exact refreshHead_tells (Checked.of_tagged h) rfl
  | setRouterMode mode =>
      have hmode := Checked.of_tagged h
      unfold setRouterMode at hmode
      split at hmode
      · cases hmode
        exact .nothing rfl
      · exact refreshHead_tells hmode rfl
  | setCustomTrackWidth | setCustomViaSize | setDiffPair =>
      exact checkedDesign_tells (Checked.of_tagged h)
  | useNetClassSizes => exact changeDesign_tells (Checked.of_tagged h)
  | selectLayerPair pair =>
      cases h
      unfold selectLayerPair
      split
      · exact tells_report fun reason he => by cases he
      · exact .nothing rfl
  | moveDrag p => exact moveDrag_tells (Checked.of_tagged h)
  | fixDrag => exact fixDrag_tells (Checked.of_tagged h)
  | breakTrack p => exact breakTrack_tells (Checked.of_tagged h)
  | requestViaTarget viaType =>
      cases h
      exact .nothing (t.host.errors_tell_of_none rfl)
  | trackCursor =>
      cases h
      exact .nothing rfl
  | resetSession | clearWorld | syncWorld | undo | redo =>
      exact .nothing (congrArg Host.errors (execute_silent (by constructor) h))

/-- **What is heard of a command.**  A commit that failed is always one that the command
makes, also when it breaks an operation off first. -/
theorem execute_hears {refusal : Option CommandRefusal} (ht : t.Orderly)
    (h : t.execute c = .ok (t', refusal)) : t.Hears c t' := by
  by_cases hc : c.Interrupts
  · -- behind the end of what ran nothing runs, and the rest is the command on an idle tool
    have hended {u : Tool} (hidle : t.makeIdle = .ok u) :
        t.Hears c u ∧ u.session.operation = .none ∧ u.session.state = .idle := by
      obtain ⟨hadvances, hnone⟩ := makeIdle_advances ht hidle
      refine ⟨makeIdle_hears hc hidle, hnone, ?_⟩
      rw [hadvances.orderly.rest, hnone]
      rfl
    cases hc with
    | startRouting p id =>
        have hstart := Checked.of_tagged h
        obtain ⟨u, hidle, _⟩ := Checked.bind_eq_ok.mp hstart
        obtain ⟨hhears, hnone, hstate⟩ := hended hidle
        exact hhears.trans_tells (.startRouting p id) hnone
          (startRouting_tells hidle hstate hstart)
    | startDrag ids anchor mode =>
        have hstart := Checked.of_tagged h
        obtain ⟨u, hidle, _⟩ := Checked.bind_eq_ok.mp hstart
        obtain ⟨hhears, hnone, _⟩ := hended hidle
        exact hhears.trans_tells (.startDrag ids anchor mode) hnone (startDrag_tells hidle hstart)
    | startFootprintDrag id anchor mode =>
        have hstart := Checked.of_tagged h
        obtain ⟨u, hidle, _⟩ := Checked.bind_eq_ok.mp hstart
        obtain ⟨hhears, hnone, _⟩ := hended hidle
        exact hhears.trans_tells (.startFootprintDrag id anchor mode) hnone
          (startFootprintDrag_tells hidle hstart)
    | cancelOperation => exact cancelOperation_hears (Checked.of_tagged h)
  · exact (execute_tells ht (.inr hc) h).hears

end Tool

end CopperRoute
