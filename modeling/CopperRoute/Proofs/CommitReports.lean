import CopperRoute.Proofs.Announcements
import CopperRoute.Proofs.BoardDifferences
import CopperRoute.Proofs.FaithfulDrags

/-!
# What the host is told of commits

A commit keeps the board that was there before, brings a new one and tells the host how many
items are new, replaced and gone.  The host is told the **truth** when these are the numbers by
which the two boards differ, when they do differ, and when it is told nothing else
(`Tool.TellsTruth`).

Three things make it untrue.

* A fix that ends a route without any copper commits nothing and records nothing, but the host
  is told of a commit.
* A drag of a selection that names an item twice counts that item twice.
* While the engine works on another board than the tool, a drag can display tracks of that
  board: the same one twice, or one that is on the board already.

The first two are `Tool.Overstates`, the third is `Tool.FixesStale`, and nothing else is untrue
(`Tool.serve_tellsTruth_iff`).
-/

namespace CopperRoute

/-- A message that copper has reached the board. -/
def Notification.isCommit : Notification → Bool
  | committed .. => true
  | _ => false

/-- The commits that the host was told of, oldest first. -/
def Host.landings (h : Host) : List Notification := h.notifications.filter Notification.isCommit

theorem Host.landings_eq (h : Host) : h.landings = h.news.filter Notification.isCommit := by
  rw [news, List.filter_filter, landings]
  congr 1
  funext n
  cases n <;> rfl

namespace Tool

variable {t u t' : Tool} {c : Command} {changes : Changeset} {report : CommitReport}

/-- **A truthful report.**  The board has changed, the one from before was recorded, and the
host is told by how many items they differ. -/
structure Reports (t t' : Tool) : Prop where
  changed : t'.board.items ≠ t.board.items
  recorded : t.history.record t.board = .ok t'.history
  told : t'.host.landings = t.host.landings ++
    [.committed (t.board.newcomers t'.board).length (t.board.replaced t'.board).length
      (t'.board.newcomers t.board).length]
  some : 0 < (t.board.newcomers t'.board).length + (t.board.replaced t'.board).length +
    (t'.board.newcomers t.board).length

/-- **The host is told the truth**: nothing, when no board was recorded, or a truthful
report. -/
inductive TellsTruth (t : Tool) (c : Command) (t' : Tool) : Prop
  | nothing (htold : t'.host.landings = t.host.landings) (hkept : t'.history = t.history)
  | undone (htold : t'.host.landings = t.host.landings) (hcommand : c = .undo)
      (hundo : t.history.undo t.board = some (t'.board, t'.history))
  | redone (htold : t'.host.landings = t.host.landings) (hcommand : c = .redo)
      (hredo : t.history.redo t.board = some (t'.board, t'.history))
  | reported (h : t.Reports t')

/-- When the host is told of a commit, it is told the truth only by a truthful report. -/
theorem TellsTruth.reports {n : Notification} (h : t.TellsTruth c t')
    (htold : t'.host.landings = t.host.landings ++ [n]) : t.Reports t' := by
  have hmore : t'.host.landings ≠ t.host.landings := by
    rw [htold]
    simp
  cases h with
  | nothing hnone | undone hnone | redone hnone => exact absurd hnone hmore
  | reported h => exact h

/-- **The report of a commit** is truthful exactly when the changeset is distinct. -/
theorem tellsTruth_of_landed (hb : t.board.Numbered) (hremoved : changes.removed = [])
    (hcommit : t.board.commit changes = .ok (.applied t'.board report))
    (hrecord : t.history.record t.board = .ok t'.history)
    (hnews : t'.host.news =
      t.host.news ++ [.committed report.added.length report.modified report.removed]) :
    t.TellsTruth c t' ↔ changes.Distinct t.board := by
  have htold : t'.host.landings = t.host.landings ++
      [.committed report.added.length report.modified report.removed] := by
    rw [Host.landings_eq, Host.landings_eq, hnews, List.filter_append]
    rfl
  rw [← hb.counts_iff hremoved hcommit]
  constructor
  · intro htruth
    have hsame := htold.symm.trans (htruth.reports htold).told
    have hnumbers := List.singleton_inj.mp (List.append_cancel_left hsame)
    rw [Notification.committed.injEq] at hnumbers
    exact ⟨hnumbers.1, hnumbers.2.1, hnumbers.2.2⟩
  · intro hcounts
    have hextends := hb.commit_extends hremoved hcommit
    have hdistinct := (hb.counts_iff hremoved hcommit).mp hcounts
    have hsome := Board.not_isEmpty_of_applied hcommit
    have hdiffers := hextends.differs hremoved hdistinct hsome
    refine .reported ⟨hextends.items_ne hremoved hdistinct.other hsome, hrecord, ?_, by omega⟩
    rw [htold, hcounts.added, hcounts.modified, hcounts.removed]

/-- **A commit is overstated.**  A route is finished without any copper, or a drag is fixed that
has grabbed an item twice. -/
inductive Overstates (t : Tool) : Command → Prop
  | void {p : Point} {id : Option ItemId} {finish : Bool} {op : RouteOp} {g : RouteGeometry}
      (hop : t.session.route? = some op)
      (hanswer : t.world.route (t.asks (op.aim p id op.ortho)) = .ok (.ok g))
      (hlast : finish = true ∨ g.reachedTarget = true)
      (hempty : (op.changeset (some g)).isEmpty = true) : Overstates t (.fixRoute p id finish)
  | twice {op : DragOp} (hop : t.session.drag? = some op)
      (haccepted : t.board.rejection? (op.drag.changeset op.allowLocked) = none)
      (hgrabbed : ¬ (op.drag.grabbed.map Item.id).Nodup)
      (htwice : ¬ ((op.drag.changeset op.allowLocked).modified.map Item.id).Nodup) :
      Overstates t .fixDrag

/-- **A stale drag is fixed.**  It would change an item to what that already is, or one twice
that it has grabbed once. -/
inductive FixesStale (t : Tool) : Command → Prop
  | same {op : DragOp} {i : Item} (hop : t.session.drag? = some op)
      (haccepted : t.board.rejection? (op.drag.changeset op.allowLocked) = none)
      (hi : i ∈ (op.drag.changeset op.allowLocked).modified) (hthere : i ∈ t.board.items) :
      FixesStale t .fixDrag
  | twice {op : DragOp} (hop : t.session.drag? = some op)
      (haccepted : t.board.rejection? (op.drag.changeset op.allowLocked) = none)
      (hgrabbed : (op.drag.grabbed.map Item.id).Nodup)
      (htwice : ¬ ((op.drag.changeset op.allowLocked).modified.map Item.id).Nodup) :
      FixesStale t .fixDrag

/-- The commands of which the host is told an untruth. -/
def Misreports (t : Tool) (c : Command) : Prop := t.Overstates c ∨ t.FixesStale c

/-- Nothing that can be committed removes an item. -/
theorem Commits.removed (h : t.Commits c changes) : changes.removed = [] := by
  cases h with
  | staged | finished | dragged => rfl
  | broken hsplit =>
      obtain ⟨_, _, _, _, _, _, _, _, rfl⟩ := Board.splitSegment_segments hsplit
      rfl

/-- **No modified item is there already**, unless a stale drag is fixed. -/
theorem Commits.other {i : Item} (h : t.Commits c changes) (hb : t.board.Numbered)
    (haccepted : t.board.rejection? changes = none) (hfresh : ¬ t.FixesStale c)
    (hi : i ∈ changes.modified) : i ∉ t.board.items := by
  intro hthere
  cases h with
  | staged | finished => cases hi
  | dragged hop => exact hfresh (.same hop haccepted hi hthere)
  | broken hsplit =>
      obtain ⟨whole, hwhole, axis, width, middle, hshape, _, hstop, rfl⟩ :=
        Board.splitSegment_segments hsplit
      -- the first half ends where the track did not
      cases List.mem_singleton.mp hi
      have hsame := List.inj_on_of_nodup_map hb.unique hthere hwhole rfl
      have hshapes := congrArg Item.shape hsame
      rw [hshape, Shape.segment.injEq] at hshapes
      exact hstop (congrArg Segment.stop hshapes.1)

/-- **What is not misreported** is distinct. -/
theorem Commits.distinct (h : t.Commits c changes) (hb : t.board.Numbered)
    (haccepted : t.board.rejection? changes = none) (hgood : ¬ t.Misreports c) :
    changes.Distinct t.board := by
  obtain ⟨hplain, hfresh⟩ := not_or.mp hgood
  refine ⟨?_, fun i => h.other hb haccepted hfresh⟩
  cases h with
  | staged | finished => exact List.nodup_nil
  | @dragged op hop =>
      by_contra htwice
      by_cases hgrabbed : (op.drag.grabbed.map Item.id).Nodup
      · exact hfresh (.twice hop haccepted hgrabbed htwice)
      · exact hplain (.twice hop haccepted hgrabbed htwice)
  | broken hsplit =>
      obtain ⟨_, _, _, _, _, _, _, _, rfl⟩ := Board.splitSegment_segments hsplit
      exact List.nodup_singleton _

/-- What a misreported drag would change is not distinct. -/
theorem Misreports.not_distinct {op : DragOp} (h : t.Misreports .fixDrag)
    (hop : t.session.drag? = some op) : ¬ (op.drag.changeset op.allowLocked).Distinct t.board := by
  rintro ⟨honce, hother⟩
  rcases h with hover | hstale
  · cases hover with
    | twice hop' _ _ htwice =>
        cases hop.symm.trans hop'
        exact htwice honce
  · cases hstale with
    | same hop' _ hi hthere =>
        cases hop.symm.trans hop'
        exact hother _ hi hthere
    | twice hop' _ _ htwice =>
        cases hop.symm.trans hop'
        exact htwice honce

/-- **A fix that ends the route** hands its copper to the board, and tells what becomes of
it. -/
theorem fixRoute_finishing {p : Point} {id : Option ItemId} {finish : Bool} {op : RouteOp}
    {g : RouteGeometry} (hop : t.session.route? = some op)
    (hanswer : t.world.route (t.asks (op.aim p id op.ortho)) = .ok (.ok g))
    (hlast : finish = true ∨ g.reachedTarget = true) (h : t.fixRoute p id finish = .ok t') :
    ∃ u r v, t.Discreet u ∧ u.commit (op.changeset (some g)) = .ok (r, v) ∧
      t'.host.news = v.host.news := by
  obtain ⟨u, hmove, h⟩ := Checked.bind_eq_ok.mp h
  obtain ⟨hworld, _, hrequest, _⟩ := moveHead_request? hop hmove
  obtain ⟨op₁, hop₁, hredraws⟩ := (moveHead_unmoved hmove).1.route op hop
  rw [hrequest] at h
  obtain ⟨answer, hanswer', h⟩ := Checked.bind_eq_ok.mp h
  rw [hworld] at hanswer'
  cases hanswer.symm.trans hanswer'
  have hends : (finish || g.reachedTarget) = true := by simpa using hlast
  simp only [hends, if_true] at h
  obtain ⟨⟨r, v⟩, hcommit, h⟩ := Checked.bind_eq_ok.mp h
  rw [hop₁, Option.map_some, Option.getD_some, hredraws.changeset] at hcommit
  refine ⟨_, r, v, (moveHead_discreet hmove).trans (u.discreet_mapSession rfl), hcommit, ?_⟩
  cases r with
  | ok report =>
      cases h
      exact Interaction.news_releasedHost _
  | error reason =>
      cases h
      exact v.host.news_report _

/-- **A fixed drag** hands its changes to the board, and keeps what that makes of them. -/
theorem fixDrag_handing {op : DragOp} (hop : t.session.drag? = some op)
    (hsome : (op.drag.changeset op.allowLocked).isEmpty = false) (h : t.fixDrag = .ok t') :
    ∃ r v, (t.mapSession Session.beginFix).commit (op.drag.changeset op.allowLocked) =
        .ok (r, v) ∧ t'.board = v.board ∧ t'.history = v.history ∧
      t'.host.news = v.host.news := by
  cases fixDrag_eq_ok h with
  | idle hnone => cases hnone.symm.trans hop
  | void hop' hempty =>
      cases hop.symm.trans hop'
      cases hempty.symm.trans hsome
  | @committed _ report u hop' _ hcommit hended =>
      cases hop.symm.trans hop'
      rw [hended]
      exact ⟨.ok report, u, hcommit, rfl, rfl, Interaction.news_releasedHost _⟩
  | @refused _ reason u hop' _ hcommit hresumed =>
      cases hop.symm.trans hop'
      rw [hresumed]
      exact ⟨.error reason, u, hcommit, rfl, rfl, u.host.news_report _⟩

/-- A fixed drag that the board accepts is truthfully reported only if it is distinct. -/
theorem fixDrag_distinct {op : DragOp} (hb : t.board.Numbered) (hop : t.session.drag? = some op)
    (haccepted : t.board.rejection? (op.drag.changeset op.allowLocked) = none)
    (h : t.fixDrag = .ok t') (htruth : t.TellsTruth .fixDrag t') :
    (op.drag.changeset op.allowLocked).Distinct t.board := by
  cases hsome : (op.drag.changeset op.allowLocked).isEmpty with
  | true =>
      exact Changeset.distinct_of_nil _ (Changeset.isEmpty_iff.mp hsome).2.1
  | false =>
      obtain ⟨r, v, hcommit, hboard, hhistory, hnews⟩ := fixDrag_handing hop hsome h
      cases commit_lands hcommit with
      | @refused reason _ => cases haccepted.symm.trans (commit_refused hcommit).2
      | void hempty => cases hsome.symm.trans hempty
      | landed happlied hrecord _ htold =>
          refine (tellsTruth_of_landed (c := .fixDrag) hb rfl (hboard ▸ happlied)
            (hhistory ▸ hrecord) ?_).mp htruth
          rw [hnews, htold]
          rfl

/-- **The host is told an untruth** of the listed commands. -/
theorem Misreports.untrue {refusal : Option CommandRefusal} (hbad : t.Misreports c)
    (hb : t.board.Numbered) (h : t.execute c = .ok (t', refusal)) : ¬ t.TellsTruth c t' := by
  intro htruth
  have hdrag {op : DragOp} (hop : t.session.drag? = some op)
      (haccepted : t.board.rejection? (op.drag.changeset op.allowLocked) = none)
      (hc : c = .fixDrag) : False := by
    subst hc
    exact hbad.not_distinct hop (fixDrag_distinct hb hop haccepted (Checked.of_tagged h) htruth)
  rcases hbad with (⟨hop, hanswer, hlast, hempty⟩ | ⟨hop, haccepted⟩) |
    (⟨hop, haccepted⟩ | ⟨hop, haccepted⟩)
  · obtain ⟨u, r, v, hdiscreet, hcommit, hnews⟩ :=
      fixRoute_finishing hop hanswer hlast (Checked.of_tagged h)
    cases commit_lands hcommit with
    | refused =>
        cases (u.board.rejection?_of_isEmpty hempty).symm.trans (commit_refused hcommit).2
    | landed happlied => cases hempty.symm.trans (Board.not_isEmpty_of_applied happlied)
    | void _ hvoid =>
        have htold : t'.host.landings = t.host.landings ++ [.committed 0 0 0] := by
          rw [Host.landings_eq, Host.landings_eq, hnews, hvoid, ← hdiscreet.news,
            notify, mapHost, Host.news_notify, List.filter_append]
          rfl
        have hreports := htruth.reports htold
        have hnumbers := List.singleton_inj.mp
          (List.append_cancel_left (htold.symm.trans hreports.told))
        rw [Notification.committed.injEq] at hnumbers
        have hsome := hreports.some
        omega
  · exact hdrag hop haccepted rfl
  · exact hdrag hop haccepted rfl
  · exact hdrag hop haccepted rfl

/-- **Of every other command** it is told the truth. -/
theorem execute_tellsTruth {refusal : Option CommandRefusal} (hb : t.board.Numbered)
    (hgood : ¬ t.Misreports c) (h : t.execute c = .ok (t', refusal)) : t.TellsTruth c t' := by
  have hsame {ns : List Notification} (hnews : t'.host.news = t.host.news ++ ns)
      (hnone : ns.filter Notification.isCommit = []) :
      t'.host.landings = t.host.landings := by
    rw [Host.landings_eq, Host.landings_eq, hnews, List.filter_append, hnone, List.append_nil]
  cases execute_announces h with
  | nothing _ _ _ hhistory _ hnews | reset _ _ hhistory _ hnews =>
      exact .nothing (hsame (hnews.trans (List.append_nil _).symm) rfl) hhistory
  | resized _ _ hhistory _ hnews => exact .nothing (hsame hnews rfl) hhistory
  | undone hundo hcommand _ hnews =>
      exact .undone (hsame (hnews.trans (List.append_nil _).symm) rfl) hcommand hundo
  | redone hredo hcommand _ hnews =>
      exact .redone (hsame (hnews.trans (List.append_nil _).symm) rfl) hcommand hredo
  | void hfinishes hcommits hempty =>
      cases hfinishes
      cases hcommits with
      | staged _ hinterrupts => cases hinterrupts
      | finished hop hanswer hlast =>
          exact absurd (.inl (.void hop hanswer hlast hempty)) hgood
  | landed hcommits hcommit hrecord _ hnews =>
      have haccepted := (Board.commit_eq_applied hcommit).1
      exact (tellsTruth_of_landed hb hcommits.removed hcommit hrecord hnews).mpr
        (hcommits.distinct hb haccepted hgood)

/-- Fixing a drag that is true to the board is not stale. -/
theorem FixesStale.not_dragsTrue (h : t.FixesStale c) : ¬ t.DragsTrue := by
  intro htrue
  cases h with
  | same hop _ hi hthere => exact (htrue _ hop).changes hi hthere
  | twice hop _ hgrabbed htwice => exact htwice ((htrue _ hop).nodup_changes _ hgrabbed)

/-- No stale drag is fixed when the engine knows no other board at first. -/
theorem serving_fixesNothingStale {board : Board} (hboard : board.Numbered) {world : World}
    (hknown : ∀ b, world = some b → b = board) (options : Options) (rules : RuleSet)
    (search : TreeSearch) (confirms : Bool) (os : List Occasion) :
    (new board world options rules search confirms).Serving (Avoids FixesStale) os := by
  exact (serving_dragsTrue hboard hknown options rules search confirms os).weaken
    fun _ _ h => h.mono fun _ _ hstale => hstale.not_dragsTrue

/-- **The host is told the truth** throughout a service exactly when no command is misreported;
and when the engine knows no other board at first, exactly when none is overstated. -/
theorem serve_tellsTruth_iff {board : Board} (hboard : board.Numbered) (world : World)
    (options : Options) (rules : RuleSet) (search : TreeSearch) (confirms : Bool)
    (os : List Occasion) :
    ((new board world options rules search confirms).Serving (Throughout TellsTruth) os ↔
        (new board world options rules search confirms).Serving (Avoids Misreports) os) ∧
      ((∀ b, world = some b → b = board) →
        ((new board world options rules search confirms).Serving (Throughout TellsTruth) os ↔
          (new board world options rules search confirms).Serving (Avoids Overstates) os)) := by
  have hiff : (new board world options rules search confirms).Serving (Throughout TellsTruth) os ↔
      (new board world options rules search confirms).Serving (Avoids Misreports) os := by
    refine serving_throughout_iff_avoids (I := WellNumbered) (fun t o ht => ht.prompted o)
      (fun t k t' => turn_wellNumbered) (fun t k t' ht hturn => ?_)
      (wellNumbered_new hboard world options rules search confirms) os
    obtain ⟨refusal, hexecute⟩ := turn_eq_ok.mp hturn
    have hnumbered : (t.ready k).board.Numbered := ht.board
    exact ⟨fun htruth hbad => hbad.untrue hnumbered hexecute htruth,
      fun hgood => execute_tellsTruth hnumbered hgood hexecute⟩
  refine ⟨hiff, fun hknown => hiff.trans ⟨fun havoids => ?_, fun havoids => ?_⟩⟩
  · exact havoids.weaken fun _ _ h => h.mono fun _ _ => .inl
  · have hfresh := serving_fixesNothingStale hboard hknown options rules search confirms os
    exact havoids.and (fun _ _ h h' => h.or h') hfresh

/-- A route is started, and finished at a point. -/
def routeTo (p : Point) : List Occasion :=
  [⟨.click ⟨0, 0⟩ false false, true, false⟩, ⟨.doubleClick p, true, false⟩]

/-- Of a finished route with a track the host is told the truth. -/
theorem serve_tellsTruth_track :
    Board.standard.Numbered ∧ (∀ b, (some Board.standard : World) = some b → b = Board.standard) ∧
      (launch Board.standard Options.standard [] true).Serving
        (Avoids Overstates) (routeTo ⟨1000000, 0⟩) ∧
      (launch Board.standard Options.standard [] true).Serving
        (Throughout TellsTruth) (routeTo ⟨1000000, 0⟩) := by
  have hboard : Board.standard.Numbered := Board.numbered_ofFile (f := BoardFile.standard) rfl
  have hknown : ∀ b, (some Board.standard : World) = some b → b = Board.standard :=
    fun b hb => (Option.some.inj hb).symm
  have havoids : (launch Board.standard Options.standard [] true).Serving
      (Avoids Overstates) (routeTo ⟨1000000, 0⟩) := by
    refine serving_avoids_cons (c := .startRouting ⟨0, 0⟩ none) (by rfl) nofun ?_
    refine serving_avoids_cons (c := .fixRoute ⟨1000000, 0⟩ none true) (by rfl) ?_ trivial
    rintro ⟨hop, hanswer, _, hempty⟩
    cases hop
    cases hanswer
    cases hempty
  exact ⟨hboard, hknown, havoids, ((serve_tellsTruth_iff hboard (some Board.standard)
    Options.standard _ _ true (routeTo ⟨1000000, 0⟩)).2 hknown).mpr havoids⟩

/-- Of a route that ends where it starts it is told as of a commit. -/
theorem serve_not_tellsTruth :
    ¬ (launch Board.standard Options.standard [] true).Serving
      (Throughout TellsTruth) (routeTo ⟨0, 0⟩) := by
  intro htruth
  obtain ⟨_, htruth⟩ := htruth _ (by rfl)
  obtain ⟨hfixed, _⟩ := htruth _ (by rfl)
  obtain ⟨htruth, _⟩ := hfixed _ (by rfl)
  have hreports := htruth.reports (by rfl)
  have hsome := hreports.some
  exact absurd hsome (by decide)

end Tool

end CopperRoute
