import CopperRoute.Proofs.Refusals

/-!
# News for the host

Two kinds of messages say that something about the board is new: the sizes in force have
changed, or copper has reached it (`Host.news`).  Most commands leave the board's items, the
sizes that were set by hand, the history and the count of commits alone, and tell no news
(`Tool.Discreet`).

`Tool.Announces` lists what the others do, with the news that they tell: an accepted size
command, a commit that reaches the board, a fix that finishes a route without copper, a step
through the history, and the reset for a new activation.  `execute_announces` is the one
place where commands are opened to see this.
-/

namespace CopperRoute

/-- The sizes that are set by hand, and whether they are in force. -/
structure HandSizes where
  inForce : Bool
  trackWidth : UInt32
  viaDiameter : UInt32
  viaDrill : UInt32
  pairWidth : UInt32
  pairGap : UInt32
  pairViaGap : UInt32
  deriving DecidableEq, Repr

/-- The sizes set by hand on a board. -/
def Design.handSizes (d : Design) : HandSizes where
  inForce := d.useCustomSizes
  trackWidth := d.customTrackWidth
  viaDiameter := d.currentViaSize
  viaDrill := d.currentViaDrill
  pairWidth := d.customDiffPairWidth
  pairGap := d.customDiffPairGap
  pairViaGap := d.customDiffPairViaGap

/-- The new sizes in force or new copper. -/
def Notification.isNews : Notification → Bool
  | sizesChanged | committed .. => true
  | error _ | info _ => false

/-- The news that an event brings. -/
def HostEvent.news? : HostEvent → Option Notification
  | notified n => (some n).filter Notification.isNews
  | _ => none

/-- An event that is no message brings no news. -/
theorem HostEvent.news?_of_not_isMessage {e : HostEvent} (he : e.isMessage = false) :
    e.news? = none := by
  cases e with
  | notified => cases he
  | _ => rfl

namespace Host

/-- The news that the host was told, oldest first. -/
def news (h : Host) : List Notification := h.notifications.filter Notification.isNews

/-- The news are read off the events in their order. -/
theorem news_eq (h : Host) : h.news = h.events.filterMap HostEvent.news? := by
  rw [news, notifications, List.filter_filterMap]
  congr 1
  funext event
  cases event with
  | notified n => rfl
  | _ => rfl

/-- A notification is news or it is not. -/
theorem news_notify (h : Host) (n : Notification) :
    (h.notify n).news = h.news ++ [n].filter Notification.isNews := by
  rw [news, notifications, notify, tell, List.filterMap_append, List.filter_append]
  rfl

/-- A reported error is no news. -/
@[simp] theorem news_report (h : Host) (e : RouterError) : (h.report e).news = h.news := by
  rw [report, news_notify]
  exact List.append_nil _

/-- A question is no news. -/
@[simp] theorem news_ask (h : Host) (q : Question) : (h.ask q).1.news = h.news := by
  rw [news_eq, news_eq]
  simp [ask, tell, HostEvent.news?]

/-- Taking the edit block is no news. -/
@[simp] theorem news_acquire (h : Host) (net : Option NetCode) :
    (h.acquire net).news = h.news := by
  rw [news_eq, news_eq, filterMap_acquire fun _ => HostEvent.news?_of_not_isMessage]

/-- Giving the edit block back is no news. -/
@[simp] theorem news_release (h : Host) : h.release.news = h.news := by
  rw [news_eq, news_eq, filterMap_release fun _ => HostEvent.news?_of_not_isMessage]

end Host

namespace Interaction

/-- The end of an operation brings no news by itself. -/
@[simp] theorem news_releasedHost (i : Interaction) : i.releasedHost.news = i.host.news := by
  rw [Host.news_eq, Host.news_eq,
    i.filterMap_releasedHost fun _ => HostEvent.news?_of_not_isMessage]

/-- Breaking an operation off brings no news by itself. -/
@[simp] theorem news_cancel (i : Interaction) : i.cancel.1.host.news = i.host.news := by
  rw [Host.news_eq, Host.news_eq, i.filterMap_cancel fun _ => HostEvent.news?_of_not_isMessage]

end Interaction

/-- Breaking an operation off does not count as a commit. -/
theorem Session.committed_brokenOff (s : Session) : s.brokenOff.committed = s.committed := by
  by_cases hnone : s.committed = 0 <;> simp [brokenOff, enter, hnone]

/-- Breaking an operation off is no commit. -/
theorem Interaction.committed_cancel (i : Interaction) :
    i.cancel.1.session.committed = i.session.committed := by
  unfold cancel
  split
  · rfl
  · exact i.session.committed_brokenOff

/-- The operation is over; a commit is counted. -/
theorem Session.committed_finished (s : Session) (committed : Bool) :
    (s.finished committed).committed = s.committed + committed.toNat := by
  cases committed <;> rfl

/-- What a commit of this command adds to the count of commits. -/
def Command.counted : Command → Nat
  | breakTrack _ => 0
  | _ => 1

/-- The command that finishes a route. -/
inductive Command.Finishes : Command → Prop
  | fixRoute (p : Point) (id : Option ItemId) (finish : Bool) : Finishes (.fixRoute p id finish)

/-- The commits of a command that interrupts are counted. -/
theorem Command.Interrupts.counted {c : Command} (h : c.Interrupts) : c.counted = 1 := by
  cases h <;> rfl

/-- The commits of a command that finishes are counted. -/
theorem Command.Finishes.counted {c : Command} (h : c.Finishes) : c.counted = 1 := by
  cases h
  rfl

/-- No command that interrupts sets sizes. -/
theorem Command.Interrupts.resizes {c : Command} (h : c.Interrupts) : c.resizes = false := by
  cases h <;> rfl

namespace Tool

variable {t u t' : Tool} {c : Command}

/-- **Discreet.**  The board stays, with its history and the count of commits, and the host is
told no news. -/
structure Discreet (t t' : Tool) : Prop where
  board : t'.board = t.board
  history : t'.history = t.history
  committed : t'.session.committed = t.session.committed
  news : t'.host.news = t.host.news

theorem Discreet.refl (t : Tool) : t.Discreet t := ⟨rfl, rfl, rfl, rfl⟩

/-- One discreet step after another is discreet. -/
theorem Discreet.trans (htu : t.Discreet u) (hut : u.Discreet t') : t.Discreet t' :=
  ⟨hut.board.trans htu.board, hut.history.trans htu.history, hut.committed.trans htu.committed,
    hut.news.trans htu.news⟩

/-- What happens in session and host alone is discreet when it is no commit and no news. -/
theorem discreet_interaction (t : Tool) {i : Interaction}
    (hcommitted : i.session.committed = t.session.committed) (hnews : i.host.news = t.host.news) :
    t.Discreet { t with toInteraction := i } :=
  ⟨rfl, rfl, hcommitted, hnews⟩

/-- A change of the session is discreet when it leaves the count of commits. -/
theorem discreet_mapSession (t : Tool) {f : Session → Session}
    (hcommitted : (f t.session).committed = t.session.committed) : t.Discreet (t.mapSession f) :=
  t.discreet_interaction (i := ⟨f t.session, t.host⟩) hcommitted rfl

/-- An error is reported discreetly. -/
theorem discreet_report (t : Tool) (e : RouterError) : t.Discreet (t.report e) :=
  t.discreet_interaction (i := ⟨t.session, t.host.report e⟩) rfl (t.host.news_report e)

/-- A hint is given discreetly. -/
theorem discreet_info (t : Tool) (hint : Hint) : t.Discreet (t.notify (.info hint)) := by
  refine t.discreet_interaction (i := ⟨t.session, t.host.notify (.info hint)⟩) rfl ?_
  rw [Host.news_notify]
  exact List.append_nil _

/-- A new head is discreet. -/
theorem refreshHead_discreet (h : t.refreshHead = .ok t') : t.Discreet t' := by
  rcases refreshHead_eq_ok h with rfl | ⟨g, rfl⟩
  · exact Discreet.refl _
  · exact t.discreet_mapSession (t.session.mapRoute_committed _)

/-- Moving the head is discreet. -/
theorem moveHead_discreet {p : Point} {id : Option ItemId} {ortho : Bool}
    (h : t.moveHead p id ortho = .ok t') : t.Discreet t' := by
  obtain ⟨hunmoved, hhost⟩ := moveHead_unmoved h
  exact ⟨hunmoved.board, hunmoved.history, hunmoved.committed, congrArg Host.news hhost⟩

/-- Taking back a fixed step is discreet. -/
theorem undoLastSegment_discreet (h : t.undoLastSegment = .ok t') : t.Discreet t' := by
  unfold undoLastSegment at h
  split at h
  · cases h
    exact Discreet.refl t
  · exact (t.discreet_mapSession rfl).trans (refreshHead_discreet h)

/-- Taking back the via is discreet. -/
theorem withdrawVia_discreet (t : Tool) : t.Discreet (t.mapSession Session.withdrawVia) := by
  refine t.discreet_mapSession ?_
  unfold Session.withdrawVia
  split
  · exact t.session.mapRoute_committed _
  · rfl

/-- Hanging a via on is discreet, and so is refusing it. -/
theorem placeVia_discreet {v : ViaType} {target : Option LayerId}
    (h : t.placeVia v target = .ok t') : t.Discreet t' := by
  have hasked := t.discreet_mapSession (f := fun s => { s with pendingViaTarget := none }) rfl
  unfold placeVia toggleVia at h
  split at h
  · cases h
    exact hasked.trans (discreet_info _ _)
  · split at h
    · exact (hasked.trans (withdrawVia_discreet _)).trans (refreshHead_discreet h)
    · split at h
      · cases h
        exact hasked.trans (discreet_report _ _)
      · exact (hasked.trans (discreet_mapSession _ rfl)).trans (refreshHead_discreet h)

/-- Switching layers is discreet. -/
theorem switchLayer_discreet {command : LayerCommand} (h : t.switchLayer command = .ok t') :
    t.Discreet t' := by
  refine t.withdrawVia_discreet.trans ?_
  simp only [switchLayer, goToLayer] at h
  split at h
  · cases h
    exact Discreet.refl _
  · cases h
    exact discreet_mapSession _ rfl
  · unfold routeToLayer at h
    split at h
    · exact (discreet_mapSession _ (Session.mapRoute_committed _ _)).trans (refreshHead_discreet h)
    · exact placeVia_discreet h
    · cases h
      exact discreet_report _ _

/-- Choosing the router mode is discreet. -/
theorem setRouterMode_discreet {mode : RouterMode} (h : t.setRouterMode mode = .ok t') :
    t.Discreet t' := by
  unfold setRouterMode at h
  split at h
  · cases h
    exact Discreet.refl t
  · exact (t.discreet_mapSession rfl).trans (refreshHead_discreet h)

/-- The question for locked copper is discreet, whatever the answer is. -/
theorem mayChange_discreet (t : Tool) (locked : Bool) (q : Question) :
    t.Discreet (t.mayChange locked q).1 := by
  unfold mayChange
  split
  · exact Discreet.refl t
  · exact t.discreet_interaction (i := ⟨t.session, (t.host.ask q).1⟩) rfl (t.host.news_ask q)

/-- Moving a drag is discreet. -/
theorem moveDrag_discreet {p : Point} (h : t.moveDrag p = .ok t') : t.Discreet t' := by
  have hfollowed := t.discreet_mapSession (f := fun s => { s with cursor := p }) rfl
  simp only [moveDrag] at h
  split at h
  · cases h
    exact hfollowed
  · obtain ⟨answer, _, h⟩ := Checked.bind_eq_ok.mp h
    split at h
    · cases h
      exact hfollowed.trans (discreet_mapSession _ rfl)
    · split at h
      · cases h
        exact hfollowed
      · cases h
        exact (hfollowed.trans (discreet_mapSession _ rfl)).trans (discreet_report _ _)

/-- A route begins without news, also when its start is refused. -/
theorem startRouting_discreet {p : Point} {id : Option ItemId} (hidle : t.makeIdle = .ok u)
    (h : t.startRouting p id = .ok t') : u.Discreet t' := by
  obtain ⟨u', hidle', h⟩ := Checked.bind_eq_ok.mp h
  cases hidle.symm.trans hidle'
  have hprepared : u.Discreet (u.prepareStart p) := u.discreet_mapSession rfl
  have hrefused (v : Tool) (e : RouterError) : v.Discreet (v.refuseStart e) :=
    (v.discreet_mapSession rfl).trans (discreet_report _ e)
  simp only at h
  split at h
  · simp only [openRoute] at h
    obtain ⟨start, _, h⟩ := Checked.bind_eq_ok.mp h
    obtain ⟨refusal, _, h⟩ := Checked.bind_eq_ok.mp h
    cases refusal with
    | some reason =>
        cases h
        refine hprepared.trans (Discreet.trans ?_ (hrefused _ _))
        exact ⟨rfl, rfl, rfl, (Host.news_release _).trans (Host.news_acquire _ _)⟩
    | none =>
        cases h
        refine hprepared.trans (discreet_interaction _ rfl ?_)
        exact (Interaction.news_releasedHost _).trans (Host.news_acquire _ _)
  · cases h
    exact hprepared.trans (hrefused _ _)

/-- Beginning a drag is discreet. -/
theorem beginDrag_discreet (t : Tool) (grabbed : List Item) (anchor : Point) (mode : DragMode)
    (locked : Bool) : t.Discreet (t.beginDrag grabbed anchor mode locked) := by
  have hasked := t.mayChange_discreet locked .dragLocked
  unfold beginDrag
  generalize t.mayChange locked .dragLocked = asked at hasked
  obtain ⟨v, confirmed⟩ := asked
  cases confirmed with
  | false => exact hasked
  | true =>
      refine hasked.trans (v.discreet_interaction rfl ?_)
      exact (Interaction.news_releasedHost _).trans (Host.news_acquire _ _)

/-- Once nothing runs, grabbing items is discreet. -/
theorem startDrag_discreet {ids : List ItemId} {anchor : Point} {mode : DragMode}
    (hidle : t.makeIdle = .ok u) (h : t.startDrag ids anchor mode = .ok t') : u.Discreet t' := by
  obtain ⟨u', hidle', h⟩ := Checked.bind_eq_ok.mp h
  cases hidle.symm.trans hidle'
  split at h
  · cases h
    exact u.discreet_report _
  · cases h
    exact u.beginDrag_discreet _ _ _ _

/-- Once nothing runs, grabbing a footprint is discreet. -/
theorem startFootprintDrag_discreet {id : FootprintId} {anchor : Point} {mode : DragMode}
    (hidle : t.makeIdle = .ok u) (h : t.startFootprintDrag id anchor mode = .ok t') :
    u.Discreet t' := by
  obtain ⟨u', hidle', h⟩ := Checked.bind_eq_ok.mp h
  cases hidle.symm.trans hidle'
  split at h
  · cases h
    exact u.discreet_report _
  · split at h
    · cases h
      exact u.discreet_report _
    · cases h
      exact u.beginDrag_discreet _ _ _ _

/-- **What a command announces.** -/
inductive Announces (t : Tool) (c : Command) (t' : Tool) : Prop
  | nothing (hresizes : c.resizes = false) (hitems : t'.board.items = t.board.items)
      (hsizes : t'.board.design.handSizes = t.board.design.handSizes)
      (hhistory : t'.history = t.history)
      (hcommitted : t'.session.committed = t.session.committed)
      (hnews : t'.host.news = t.host.news)
  | reset (hcommand : c = .resetSession) (hboard : t'.board = t.board)
      (hhistory : t'.history = t.history) (hcommitted : t'.session.committed = 0)
      (hnews : t'.host.news = t.host.news)
  /-- A size command was accepted. -/
  | resized (hresizes : c.resizes = true) (hitems : t'.board.items = t.board.items)
      (hhistory : t'.history = t.history) (hcommitted : t'.session.committed = t.session.committed)
      (hnews : t'.host.news = t.host.news ++ [.sizesChanged])
  /-- A changeset has reached the board. -/
  | landed {changes : Changeset} {report : CommitReport} (hcommits : t.Commits c changes)
      (hcommit : t.board.commit changes = .ok (.applied t'.board report))
      (hrecord : t.history.record t.board = .ok t'.history)
      (hcommitted : t'.session.committed = t.session.committed + c.counted)
      (hnews : t'.host.news =
        t.host.news ++ [.committed report.added.length report.modified report.removed])
  /-- A route was finished with nothing to commit, but that was told. -/
  | void {changes : Changeset} (hfinishes : c.Finishes) (hcommits : t.Commits c changes)
      (hempty : changes.isEmpty = true)
      (hboard : t'.board = t.board) (hhistory : t'.history = t.history)
      (hcommitted : t'.session.committed = t.session.committed)
      (hnews : t'.host.news = t.host.news ++ [.committed 0 0 0])
  | undone (hundo : t.history.undo t.board = some (t'.board, t'.history)) (hcommand : c = .undo)
      (hcommitted : t'.session.committed = t.session.committed)
      (hnews : t'.host.news = t.host.news)
  | redone (hredo : t.history.redo t.board = some (t'.board, t'.history)) (hcommand : c = .redo)
      (hcommitted : t'.session.committed = t.session.committed)
      (hnews : t'.host.news = t.host.news)

/-- What can be committed is no size command. -/
theorem Commits.resizes {changes : Changeset} (h : t.Commits c changes) : c.resizes = false := by
  cases h with
  | staged _ hinterrupts => exact hinterrupts.resizes
  | finished | dragged | broken => rfl

/-- What is discreet has nothing to announce, unless it should set sizes. -/
theorem Discreet.announces (h : t.Discreet t') (hc : c.resizes = false) : t.Announces c t' :=
  .nothing hc (by rw [h.board]) (by rw [h.board]) h.history h.committed h.news

/-- What is announced before a discreet step. -/
theorem Announces.trans_discreet (h : t.Announces c u) (hut : u.Discreet t') :
    t.Announces c t' := by
  obtain ⟨hboard, hhistory, hcommitted, hnews⟩ := hut
  cases h with
  | nothing hresizes hitems hsizes hpast hcount htold =>
      exact .nothing hresizes (by rw [hboard, hitems]) (by rw [hboard, hsizes])
        (hhistory.trans hpast) (hcommitted.trans hcount) (hnews.trans htold)
  | reset hcommand hsame hpast hcount htold =>
      exact .reset hcommand (hboard.trans hsame) (hhistory.trans hpast) (hcommitted.trans hcount)
        (hnews.trans htold)
  | resized hresizes hitems hpast hcount htold =>
      exact .resized hresizes (by rw [hboard, hitems]) (hhistory.trans hpast)
        (hcommitted.trans hcount) (hnews.trans htold)
  | landed hcommits hcommit hrecord hcount htold =>
      exact .landed hcommits (hboard ▸ hcommit) (hhistory ▸ hrecord) (hcommitted.trans hcount)
        (hnews.trans htold)
  | void hfinishes hcommits hempty hsame hpast hcount htold =>
      exact .void hfinishes hcommits hempty (hboard.trans hsame) (hhistory.trans hpast)
        (hcommitted.trans hcount) (hnews.trans htold)
  | undone hundo hcommand hcount htold =>
      exact .undone (by rw [hboard, hhistory, hundo]) hcommand (hcommitted.trans hcount)
        (hnews.trans htold)
  | redone hredo hcommand hcount htold =>
      exact .redone (by rw [hboard, hhistory, hredo]) hcommand (hcommitted.trans hcount)
        (hnews.trans htold)

/-- **What becomes of a changeset**, before the session counts it. -/
inductive Lands (t : Tool) (changes : Changeset) (t' : Tool) :
    Except CommitRejection CommitReport → Prop
  | refused {reason : CommitRejection} (hsame : t' = t) : Lands t changes t' (.error reason)
  | void (hempty : changes.isEmpty = true) (htold : t' = t.notify (.committed 0 0 0)) :
      Lands t changes t' (.ok .nothing)
  | landed {report : CommitReport}
      (hcommit : t.board.commit changes = .ok (.applied t'.board report))
      (hrecord : t.history.record t.board = .ok t'.history) (hsession : t'.session = t.session)
      (hnews : t'.host.news =
        t.host.news ++ [.committed report.added.length report.modified report.removed]) :
      Lands t changes t' (.ok report)

/-- **A commit** lands as its result says. -/
theorem commit_lands {changes : Changeset} {r : Except CommitRejection CommitReport}
    (h : t.commit changes = .ok (r, t')) : t.Lands changes t' r := by
  obtain ⟨outcome, houtcome, h⟩ := Checked.bind_eq_ok.mp h
  cases outcome with
  | rejected reason =>
      cases h
      exact .refused rfl
  | untouched =>
      cases h
      exact .void (Board.isEmpty_of_untouched houtcome) rfl
  | applied board report =>
      obtain ⟨history, hhistory, h⟩ := Checked.bind_eq_ok.mp h
      cases h
      exact .landed houtcome hhistory rfl (Host.news_notify _ _)

/-- **A commit of what the command may commit** is announced, when the session counts it as
the command does: a refused one is reported only, and one without changes does not count. -/
theorem Lands.announces {changes : Changeset} {r : Except CommitRejection CommitReport} {v : Tool}
    (h : u.Lands changes v r) (htu : t.Discreet u) (hcommits : t.Commits c changes)
    (hvoid : changes.isEmpty = true → c.Finishes) (hboard : t'.board = v.board)
    (hhistory : t'.history = v.history) (hnews : t'.host.news = v.host.news)
    (hcommitted : t'.session.committed = v.session.committed +
      if r.isOk && !changes.isEmpty then c.counted else 0) : t.Announces c t' := by
  cases h with
  | refused hsame =>
      cases hsame
      exact (htu.trans ⟨hboard, hhistory, hcommitted, hnews⟩).announces hcommits.resizes
  | void hempty htold =>
      cases htold
      refine .void (hvoid hempty) hcommits hempty (hboard.trans htu.board)
        (hhistory.trans htu.history) ?_ ?_
      · rw [hcommitted, hempty]
        exact htu.committed
      · rw [hnews, ← htu.news]
        exact Host.news_notify _ _
  | landed hcommit hrecord hsession htold =>
      rw [htu.board] at hcommit hrecord
      rw [htu.history] at hrecord
      refine .landed hcommits (hboard ▸ hcommit) (hhistory ▸ hrecord) ?_ ?_
      · rw [hcommitted, Board.not_isEmpty_of_applied hcommit, hsession, htu.committed]
        rfl
      · rw [hnews, htold, htu.news]

/-- Committing what is staged is announced, whatever discreet step came before. -/
theorem commitStaged_announces (hc : c.Interrupts) (htu : t.Discreet u)
    (hroute : u.session.route? = t.session.route?) (h : u.commitStaged = .ok t') :
    t.Announces c t' := by
  unfold commitStaged at h
  split at h
  · cases h
    exact htu.announces hc.resizes
  · next changes hstaged =>
      have hfixed := Option.filter_eq_some_iff.mp hstaged
      obtain ⟨op, hop, rfl⟩ := Option.map_eq_some_iff.mp hfixed.1
      rw [hroute] at hop
      have hsome : (op.changeset none).isEmpty = false := by simpa using hfixed.2
      obtain ⟨⟨r, v⟩, hcommit, h⟩ := Checked.bind_eq_ok.mp h
      have hlands := commit_lands hcommit
      have hvoid (hempty : (op.changeset none).isEmpty = true) : c.Finishes := by
        cases hsome.symm.trans hempty
      cases r with
      | ok report =>
          cases h
          refine hlands.announces htu (.staged hop hc) hvoid rfl rfl rfl ?_
          rw [hsome, hc.counted]
          rfl
      | error reason =>
          cases h
          exact hlands.announces htu (.staged hop hc) hvoid rfl rfl (v.host.news_report _) rfl

/-- Stopping an operation announces the steps that were taken over. -/
theorem stopOperation_announces {stopped : Bool} (hc : c.Interrupts) (htu : t.Discreet u)
    (hroute : u.session.route? = t.session.route?) (h : u.stopOperation = .ok (t', stopped)) :
    t.Announces c t' := by
  obtain ⟨v, hstaged, h⟩ := Checked.bind_eq_ok.mp h
  refine (commitStaged_announces hc htu hroute hstaged).trans_discreet ?_
  have hcommitted := v.toInteraction.committed_cancel
  have hnews := v.toInteraction.news_cancel
  generalize v.toInteraction.cancel = cancelled at h hcommitted hnews
  cases h
  exact v.discreet_interaction hcommitted hnews

/-- Making room for another operation announces the steps that were taken over. -/
theorem makeIdle_announces (hc : c.Interrupts) (h : t.makeIdle = .ok t') : t.Announces c t' := by
  unfold makeIdle at h
  split at h
  · cases h
    exact (Discreet.refl t).announces hc.resizes
  · obtain ⟨⟨u, stopped⟩, hstop, h⟩ := Checked.bind_eq_ok.mp h
    cases h
    exact stopOperation_announces hc (Discreet.refl t) rfl hstop

/-- Cancelling announces the steps that were taken over. -/
theorem cancelOperation_announces (h : t.cancelOperation = .ok t') :
    t.Announces .cancelOperation t' := by
  obtain ⟨⟨u, stopped⟩, hstop, h⟩ := Checked.bind_eq_ok.mp h
  have hstopped := stopOperation_announces .cancelOperation (t.discreet_mapSession rfl) rfl hstop
  refine hstopped.trans_discreet ?_
  cases stopped <;> cases h
  · exact u.discreet_mapSession rfl
  · exact Discreet.refl u

/-- **A finished route** counts when it leaves copper, and is announced in any case. -/
theorem finishRoute_announces {op : RouteOp} {g : RouteGeometry} (htu : t.Discreet u)
    (hop : u.session.route? = some op) (hcommits : t.Commits c (op.changeset (some g)))
    (hc : c.Finishes) (h : u.finishRoute g = .ok t') : t.Announces c t' := by
  obtain ⟨⟨r, v⟩, hcommit, h⟩ := Checked.bind_eq_ok.mp h
  rw [hop, Option.map_some, Option.getD_some] at hcommit
  have hbegun : t.Discreet (u.mapSession Session.beginFix) := htu.trans (u.discreet_mapSession rfl)
  have hlands := commit_lands hcommit
  cases r with
  | ok report =>
      cases h
      refine hlands.announces hbegun hcommits (fun _ => hc) rfl rfl
        (Interaction.news_releasedHost _) ?_
      show (v.session.finished _).committed = _
      rw [Session.committed_finished, hc.counted]
      congr 1
      -- the changeset has additions only, and all of them get identifiers
      cases hlands with
      | void hempty => simp [hempty, CommitReport.nothing]
      | landed hcommit =>
          have hsome := Board.not_isEmpty_of_applied hcommit
          have hadded := Board.length_addAll (Board.commit_eq_applied hcommit).2
          have hcopper : report.added.isEmpty = false := by
            rw [List.isEmpty_eq_false_iff, ← List.length_pos_iff, hadded, List.length_pos_iff]
            simpa [Changeset.isEmpty, RouteOp.changeset, Changeset.empty] using hsome
          simp [hsome, hcopper, Except.isOk, Except.toBool]
  | error reason =>
      cases h
      exact hlands.announces hbegun hcommits (fun _ => hc) rfl rfl (v.host.news_report _) rfl

/-- Fixing a head announces the route when that ends, and is discreet before. -/
theorem fixRoute_announces {p : Point} {id : Option ItemId} {finish : Bool}
    (h : t.fixRoute p id finish = .ok t') : t.Announces (.fixRoute p id finish) t' := by
  obtain ⟨u, hmove, houtcome⟩ := fixRoute_eq_ok h
  have hmoved := moveHead_discreet hmove
  cases houtcome with
  | idle _ hsame | bare _ _ _ hsame =>
      rw [hsame]
      exact hmoved.announces rfl
  | unsolved _ _ hreported =>
      rw [hreported]
      exact (hmoved.trans (u.discreet_report _)).announces rfl
  | finished hrequest hanswer hlast hfinish =>
      obtain ⟨op, hop, hcommits⟩ := commits_finished hmove hrequest hanswer hlast
      exact finishRoute_announces hmoved hop hcommits (.fixRoute p id finish) hfinish
  | @extended _ g _ _ _ _ _ hextended =>
      rw [hextended]
      refine (hmoved.trans (u.discreet_mapSession ?_)).announces rfl
      exact Session.mapRoute_committed _ _

/-- Fixing a drag announces what it changed. -/
theorem fixDrag_announces (h : t.fixDrag = .ok t') : t.Announces .fixDrag t' := by
  have hbegun := t.discreet_mapSession (f := Session.beginFix) rfl
  have hvoid {op : DragOp} (hsome : (op.drag.changeset op.allowLocked).isEmpty = false)
      (hempty : (op.drag.changeset op.allowLocked).isEmpty = true) : Command.fixDrag.Finishes := by
    cases hsome.symm.trans hempty
  cases fixDrag_eq_ok h with
  | idle _ hsame =>
      rw [hsame]
      exact (Discreet.refl t).announces rfl
  | void _ _ hended =>
      rw [hended]
      refine Discreet.announces ?_ rfl
      exact ⟨rfl, rfl, Session.committed_finished _ false, Interaction.news_releasedHost _⟩
  | committed hop hsome hcommit hended =>
      rw [hended]
      refine (commit_lands hcommit).announces hbegun (.dragged hop) (hvoid hsome) rfl rfl
        (Interaction.news_releasedHost _) ?_
      rw [hsome]
      exact Session.committed_finished _ _
  | @refused _ _ u hop hsome hcommit hresumed =>
      rw [hresumed]
      exact (commit_lands hcommit).announces hbegun (.dragged hop) (hvoid hsome) rfl rfl
        (u.host.news_report _) rfl

/-- Breaking a track announces its two halves. -/
theorem breakTrack_announces {p : Point} (h : t.breakTrack p = .ok t') :
    t.Announces (.breakTrack p) t' := by
  unfold breakTrack at h
  split at h
  · cases h
    exact (Discreet.refl t).announces rfl
  · next hbusy =>
      obtain ⟨found, _, h⟩ := Checked.bind_eq_ok.mp h
      split at h
      · cases h
        exact (t.discreet_report _).announces rfl
      · next i _ =>
          have hasked := t.mayChange_discreet i.locked .breakLocked
          have hreleases := t.releases_of_mayChange i.locked .breakLocked
          generalize t.mayChange i.locked .breakLocked = asked at h hasked hreleases
          obtain ⟨u, confirmed⟩ := asked
          cases confirmed with
          | false =>
              cases h
              exact hasked.announces rfl
          | true =>
              obtain ⟨split?, hsplit, h⟩ := Checked.bind_eq_ok.mp h
              cases split? with
              | none =>
                  cases h
                  exact hasked.announces rfl
              | some changes =>
                  obtain ⟨⟨r, v⟩, hcommit, h⟩ := Checked.bind_eq_ok.mp h
                  have hboard : u.board = t.board := hasked.board
                  rw [hboard] at hsplit
                  have hcommits : t.Commits (.breakTrack p) changes :=
                    .broken hsplit (by simpa using hbusy) (hreleases rfl)
                  have hlands := commit_lands hcommit
                  have hvoid (hempty : changes.isEmpty = true) :
                      (Command.breakTrack p).Finishes := by
                    obtain ⟨_, _, _, _, _, _, _, _, rfl⟩ := Board.splitSegment_segments hsplit
                    cases hempty
                  cases r with
                  | ok report =>
                      cases h
                      refine hlands.announces hasked hcommits hvoid rfl rfl rfl ?_
                      simp [Command.counted]
                  | error reason =>
                      cases h
                      exact hlands.announces hasked hcommits hvoid rfl rfl
                        (v.host.news_report _) rfl

/-- The sizes set by hand do not depend on the pair of layers for vias. -/
theorem selectLayerPair_announces (t : Tool) (pair : LayerPair) :
    t.Announces (.selectLayerPair pair) (t.selectLayerPair pair) := by
  unfold selectLayerPair
  split
  · exact (t.discreet_report _).announces rfl
  · exact .nothing rfl rfl rfl rfl (t.session.mapRoute_committed _) rfl

/-- **A size command** is announced when it is accepted. -/
theorem redesigns_announces {change : Design → Design} {refusal : Option CommandRefusal}
    (hc : c.Redesigns change) (h : t.execute c = .ok (t', refusal)) : t.Announces c t' := by
  rcases execute_redesigns hc with ⟨hresizes, e, hrejected⟩ | ⟨hresizes, hchanges⟩
  · cases (hrejected t).symm.trans h
    exact (t.discreet_report e).announces hresizes
  · rw [hchanges t] at h
    have hrefreshed : _ = Except.ok t' := Checked.of_tagged h
    refine Announces.trans_discreet ?_ (refreshHead_discreet hrefreshed)
    exact .resized hresizes rfl rfl (t.session.mapRoute_committed _) (Host.news_notify _ _)

/-- Going back announces nothing. -/
theorem undo_announces (t : Tool) : t.Announces .undo t.undo.1 := by
  unfold undo
  split
  · exact (Discreet.refl t).announces rfl
  · split
    · next hundo => exact .undone hundo rfl rfl rfl
    · exact (Discreet.refl t).announces rfl

/-- Going forward in the history announces nothing. -/
theorem redo_announces (t : Tool) : t.Announces .redo t.redo.1 := by
  unfold redo
  split
  · exact (Discreet.refl t).announces rfl
  · split
    · next hredo => exact .redone hredo rfl rfl rfl
    · exact (Discreet.refl t).announces rfl

/-- **Every command** announces what the list says. -/
theorem execute_announces {refusal : Option CommandRefusal}
    (h : t.execute c = .ok (t', refusal)) : t.Announces c t' := by
  cases c with
  | startRouting p id =>
      have hstart := Checked.of_tagged h
      obtain ⟨u, hidle, _⟩ := Checked.bind_eq_ok.mp hstart
      exact (makeIdle_announces (.startRouting p id) hidle).trans_discreet
        (startRouting_discreet hidle hstart)
  | startDrag ids anchor mode =>
      have hstart := Checked.of_tagged h
      obtain ⟨u, hidle, _⟩ := Checked.bind_eq_ok.mp hstart
      exact (makeIdle_announces (.startDrag ids anchor mode) hidle).trans_discreet
        (startDrag_discreet hidle hstart)
  | startFootprintDrag id anchor mode =>
      have hstart := Checked.of_tagged h
      obtain ⟨u, hidle, _⟩ := Checked.bind_eq_ok.mp hstart
      exact (makeIdle_announces (.startFootprintDrag id anchor mode) hidle).trans_discreet
        (startFootprintDrag_discreet hidle hstart)
  | cancelOperation => exact cancelOperation_announces (Checked.of_tagged h)
  | fixRoute p id finish => exact fixRoute_announces (Checked.of_tagged h)
  | fixDrag => exact fixDrag_announces (Checked.of_tagged h)
  | breakTrack p => exact breakTrack_announces (Checked.of_tagged h)
  | setCustomTrackWidth width => exact redesigns_announces (.trackWidth width) h
  | setCustomViaSize diameter drill => exact redesigns_announces (.viaSize diameter drill) h
  | setDiffPair width gap viaGap => exact redesigns_announces (.diffPair width gap viaGap) h
  | useNetClassSizes => exact redesigns_announces .netClasses h
  | selectLayerPair pair =>
      cases h
      exact t.selectLayerPair_announces pair
  | undo =>
      have hundo := t.undo_announces
      rw [Checked.pure_eq_ok.mp h] at hundo
      exact hundo
  | redo =>
      have hredo := t.redo_announces
      rw [Checked.pure_eq_ok.mp h] at hredo
      exact hredo
  | resetSession =>
      cases h
      exact .reset rfl rfl rfl rfl rfl
  | moveHead p id ortho => exact (moveHead_discreet (Checked.of_tagged h)).announces rfl
  | undoLastSegment => exact (undoLastSegment_discreet (Checked.of_tagged h)).announces rfl
  | placeVia v target => exact (placeVia_discreet (Checked.of_tagged h)).announces rfl
  | switchLayer command => exact (switchLayer_discreet (Checked.of_tagged h)).announces rfl
  | setRouterMode mode => exact (setRouterMode_discreet (Checked.of_tagged h)).announces rfl
  | moveDrag p => exact (moveDrag_discreet (Checked.of_tagged h)).announces rfl
  | flipPosture | toggleRounding =>
      refine Discreet.announces ?_ rfl
      exact (t.discreet_mapSession rfl).trans (refreshHead_discreet (Checked.of_tagged h))
  | requestViaTarget viaType =>
      cases h
      exact ((t.discreet_mapSession rfl).trans (discreet_info _ _)).announces rfl
  | trackCursor | clearWorld | syncWorld =>
      cases h
      refine Discreet.announces ?_ rfl
      exact ⟨rfl, rfl, rfl, rfl⟩

end Tool

end CopperRoute
