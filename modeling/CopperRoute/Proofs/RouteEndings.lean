import CopperRoute.Proofs.CommittedRoutes
import CopperRoute.Proofs.ProperCopper
import CopperRoute.Proofs.Refusals
import CopperRoute.Proofs.RouteSizes

/-!
# How the end of a route can fail

What a route leaves has a proper place on the board, so that a commit of it fails for one
reason only: a track without width, or a via whose drill does not fit
(`Tool.serve_failsForSize`).  Sizes come from net classes, from rules and from the host,
and a rule can prescribe a via that is no wider than its hole.

A finishing fix that fails leaves the route running.  A command that breaks the route off
does not: it reports the failure, and the fixed steps are gone.  So every step that was
fixed reaches the board exactly when no route is broken off that has staged a draft with a
size at fault (`Tool.serve_keepsSteps_iff`).
-/

namespace CopperRoute

/-- The board does not take a draft over as it is. -/
def Board.Refuses (b : Board) (d : Draft) : Prop := b.draftRejection? d ≠ none

namespace Tool

variable {t t' : Tool} {op : RouteOp} {c : Command} {refusal : Option CommandRefusal}

/-- A commit that succeeds was not refused. -/
theorem commit_accepted {changes : Changeset} {report : CommitReport}
    (h : t.commit changes = .ok (.ok report, t')) : t.board.rejection? changes = none := by
  cases hrejection : t.board.rejection? changes with
  | none => rfl
  | some reason =>
      obtain ⟨outcome, houtcome, h⟩ := Checked.bind_eq_ok.mp h
      simp only [Board.commit, hrejection] at houtcome
      cases houtcome
      cases h

/-- A fix behind which no route runs has finished it, and the board has accepted it. -/
theorem fixRoute_finishes {p : Point} {id : Option ItemId} {finish : Bool}
    (hop : t.session.route? = some op) (hgone : t'.session.route? = none)
    (h : t.fixRoute p id finish = .ok t') :
    ∃ g, t.Ends op (.fixRoute p id finish) (op.staged ++ g.items) ∧
      t.board.rejection? (op.changeset (some g)) = none := by
  obtain ⟨u, hmove, houtcome⟩ := fixRoute_eq_ok h
  obtain ⟨hworld, hboard, hrequest, hpush⟩ := moveHead_request? hop hmove
  obtain ⟨op₁, hop₁, hredraws⟩ := (moveHead_unmoved hmove).1.route op hop
  have hruns (hsame : t'.session.route? = some op₁) : False := by
    rw [hsame] at hgone
    cases hgone
  cases houtcome with
  | idle hnone => cases hrequest.symm.trans hnone
  | bare _ _ _ hsame | unsolved _ _ hsame =>
      rw [hsame] at hruns
      exact (hruns hop₁).elim
  | extended _ _ _ _ _ hextended =>
      rw [hextended] at hgone
      cases (hpush _).symm.trans hgone
  | @finished r g hasked hanswer hlast hfinish =>
      cases hrequest.symm.trans hasked
      rw [hworld] at hanswer
      refine ⟨g, .finished hanswer hlast, ?_⟩
      obtain ⟨⟨r, v⟩, hcommit, hfinish⟩ := Checked.bind_eq_ok.mp hfinish
      rw [hop₁, Option.map_some, Option.getD_some, hredraws.changeset] at hcommit
      cases r with
      | ok report =>
          have haccepted := commit_accepted hcommit
          rw [← hboard]
          exact haccepted
      | error reason =>
          cases hfinish
          obtain ⟨rfl, _⟩ := commit_refused hcommit
          exact (hruns hop₁).elim

/-- **A route is gone** only when it was broken off, or finished and accepted. -/
theorem execute_ends (hop : t.session.route? = some op) (hgone : t'.session.route? = none)
    (h : t.execute c = .ok (t', refusal)) :
    c.Interrupts ∨
      ∃ drafts, t.Ends op c drafts ∧ ∀ d ∈ drafts, t.board.draftRejection? d = none := by
  rcases execute_quiet h with htransits | hquiet
  · cases htransits with
    | startRouting p id => exact .inl (.startRouting p id)
    | startDrag ids anchor mode => exact .inl (.startDrag ids anchor mode)
    | startFootprintDrag id anchor mode => exact .inl (.startFootprintDrag id anchor mode)
    | cancelOperation => exact .inl .cancelOperation
    | fixRoute =>
        obtain ⟨g, hends, haccepted⟩ := fixRoute_finishes hop hgone (Checked.of_tagged h)
        rw [Board.rejection?, Option.or_eq_none_iff] at haccepted
        exact .inr ⟨_, hends, List.findSome?_eq_none_iff.mp haccepted.1⟩
    | fixDrag =>
        -- where a route runs there is no drag to fix
        have hfix := Checked.of_tagged h
        rw [fixDrag, Session.drag?_of_route hop] at hfix
        cases hfix
        cases hop.symm.trans hgone
  · obtain ⟨op', hop'⟩ := hquiet.route_runs hop
    cases hop'.symm.trans hgone

/-- A commit of a route that fails has a draft that the board refuses. -/
theorem FailsToCommit.refused {reason : CommitRejection} (h : t.FailsToCommit c reason)
    (ht : t.Orderly) (hop : t.session.route? = some op) :
    ∃ drafts, t.Ends op c drafts ∧ ∃ d ∈ drafts, t.board.Refuses d := by
  obtain ⟨changes, hcommits, hrejection⟩ := h
  obtain ⟨hends, hmodified, hremoved⟩ := hcommits.ends hop (ht.busy hop)
  refine ⟨_, hends, ?_⟩
  rw [Board.rejection?, hmodified, hremoved] at hrejection
  have hadded : changes.added.findSome? t.board.draftRejection? = some reason := by
    simpa using hrejection
  obtain ⟨d, hd, hrefused⟩ := List.exists_of_findSome?_eq_some hadded
  refine ⟨d, hd, ?_⟩
  rw [Board.Refuses, hrefused]
  exact Option.some_ne_none reason

/-- All that the running route has staged, and all that it could leave at its end, has a
proper place on the board. -/
def StagesProper (t : Tool) : Prop :=
  ∀ op, t.session.route? = some op → (∀ d ∈ op.staged, d.ProperIn t.board.stackup) ∧
    ∀ c drafts, t.Ends op c drafts → ∀ d ∈ drafts, d.ProperIn t.board.stackup

/-- When the commit of the running route fails, a draft that it would have left has a size
at fault. -/
def FailsForSize (t : Tool) (c : Command) (t' : Tool) : Prop :=
  ∀ op, t.session.route? = some op → ∃ es, t'.host.errors = t.host.errors ++ es ∧
    ∀ reason, RouterError.commitFailed reason ∈ es →
      ∃ drafts, t.Ends op c drafts ∧ ∃ d ∈ drafts, d.shape.Missized

variable {n : UInt8}

theorem KeepsProper.stagesProper (ht : t.KeepsProper (Stackup.ofCount n)) : t.StagesProper := by
  intro op hop
  have hproper := ht.route op hop
  have hstaged : ∀ d ∈ op.staged, d.ProperIn t.board.stackup := by
    intro d hd
    rw [ht.board]
    exact hproper.staged hd
  refine ⟨hstaged, fun c drafts hends => ?_⟩
  cases hends with
  | brokenOff => exact hstaged
  | finished hanswer _ =>
      intro d hd
      rcases List.mem_append.mp hd with hd | hd
      · exact hstaged d hd
      · rw [ht.board]
        exact (hproper.of_sameWay (op.sameWay_aim ..)).answer hanswer d hd

/-- **A route fails for its sizes only**, whatever command ends it. -/
theorem KeepsProper.failsForSize (ht : t.KeepsProper (Stackup.ofCount n))
    (h : t.execute c = .ok (t', refusal)) : t.FailsForSize c t' := by
  intro op hop
  obtain ⟨es, hes, hcause⟩ := execute_hears ht.orderly h
  refine ⟨es, hes, fun reason hreason => ?_⟩
  obtain ⟨drafts, hends, d, hd, hrefused⟩ := (hcause reason hreason).refused ht.orderly hop
  have hproper := (ht.stagesProper op hop).2 c drafts hends d hd
  exact ⟨drafts, hends, d, hd, hproper.refused_iff.mp hrefused⟩

/-- **A commit of a route fails for a size only.**  Throughout a service, on a stackup of
1 to 32 layers and with an engine that knows it, nothing is staged that has no length or
that lies outside the stackup; and a commit of the running route fails only when a draft
that it would leave is a track without width, or a via whose drill does not fit. -/
theorem serve_failsForSize {board : Board} {world : World} {n : UInt8}
    (hstackup : board.stackup = Stackup.ofCount n)
    (hworld : ∀ b, world = some b → b.stackup = board.stackup) (options : Options)
    (rules : RuleSet) (search : TreeSearch) (confirms : Bool) (os : List Occasion) :
    (new board world options rules search confirms).Serving (Always StagesProper) os ∧
      (new board world options rules search confirms).Serving (Throughout FailsForSize) os := by
  have hnew := keepsProper_new hstackup (fun b hb => (hworld b hb).trans hstackup) options rules
    search confirms
  have hprompt (t : Tool) (o : Occasion) (ht : t.KeepsProper (Stackup.ofCount n)) :
      (t.prompted o).KeepsProper (Stackup.ofCount n) := ht.prompted o
  constructor
  · exact serving_always_of_invariant hprompt (fun _ _ _ => turn_keepsProper)
      (fun _ ht => ht.stagesProper) hnew os
  · refine serving_throughout_of_invariant hprompt (fun _ _ _ => turn_keepsProper)
      (fun t k t' ht hturn => ?_) hnew os
    obtain ⟨refusal, h⟩ := turn_eq_ok.mp hturn
    exact (ht.ready k).failsForSize h

/-- A rule that makes vias as narrow as their holes. -/
def narrowVias : Rule := ⟨"narrow vias", .viaDiameter, 400000, .always⟩

/-- The key that breaks an operation off. -/
def escape : Occasion := ⟨.keyPress "Escape", true, false⟩

/-- A route with such a via is refused when it is broken off. -/
theorem serve_failsForSize_narrow :
    Board.standard.stackup = Stackup.ofCount 2 ∧
      (launch Board.standard Options.standard [narrowVias] true).Serving
        (Throughout FailsForSize) (viaStep ++ [escape]) ∧
      ∃ t op u, (launch Board.standard Options.standard [narrowVias] true).serve viaStep = .ok t ∧
        t.session.route? = some op ∧ t.StagesProper ∧
        (∃ d ∈ op.staged, d.shape.Missized) ∧ t.serve [escape] = .ok u ∧
        t.host.errors = [] ∧ ∃ reason, u.host.errors = [.commitFailed reason] := by
  have hstackup : Board.standard.stackup = Stackup.ofCount 2 := rfl
  obtain ⟨hproper, _⟩ := serve_failsForSize hstackup stackup_of_loaded Options.standard
    _ _ true viaStep
  obtain ⟨_, hfails⟩ := serve_failsForSize hstackup stackup_of_loaded Options.standard
    _ _ true (viaStep ++ [escape])
  obtain ⟨t, op, u, d, hserve, hop, hd, hshape, hescape, hbefore, hafter⟩ :
      ∃ t op u d,
        (launch Board.standard Options.standard [narrowVias] true).serve viaStep = .ok t ∧
        t.session.route? = some op ∧ d ∈ op.staged ∧
        d.shape = .via ⟨1000000, 0⟩ 400000 400000 .through ∧ t.serve [escape] = .ok u ∧
        t.host.errors = [] ∧ ∃ reason, u.host.errors = [.commitFailed reason] :=
    ⟨_, _, _, _, by rfl, by rfl, List.mem_cons_of_mem _ List.mem_cons_self, by rfl, by rfl, by rfl,
      _, by rfl⟩
  have hmissized : d.shape.Missized := by
    rw [hshape]
    decide
  exact ⟨hstackup, hfails, t, op, u, hserve, hop, hproper.last hserve, ⟨d, hd, hmissized⟩, hescape,
    hbefore, hafter⟩

/-- **Nothing fixed is lost.**  When the command ends the running route, the board gains all
that is fixed, and the last head besides if it finishes the route. -/
def KeepsSteps (t : Tool) (c : Command) (t' : Tool) : Prop :=
  ∀ op, t.session.route? = some op → c.Interrupts ∨ t'.session.route? = none →
    ∃ drafts, t.Ends op c drafts ∧ t.board.Gains op.net drafts t'.board

/-- The command breaks off a route with a fixed draft at fault. -/
def BreaksOff (fault : Board → Draft → Prop) (t : Tool) (c : Command) : Prop :=
  c.Interrupts ∧ ∃ op, t.session.route? = some op ∧ ∃ d ∈ op.staged, fault t.board d

/-- The command breaks off a route that has fixed a track without width, or a via whose
drill does not fit. -/
abbrev BreaksOffMissized : Tool → Command → Prop := BreaksOff fun _ d => d.shape.Missized

/-- What breaks a route off leaves what is fixed, and nothing else. -/
theorem Ends.eq_staged {drafts : List Draft} (h : t.Ends op c drafts) (hc : c.Interrupts) :
    drafts = op.staged := by
  cases h with
  | brokenOff => rfl
  | finished => cases hc

/-- **Exactly a refused draft** among the fixed steps keeps them from the board. -/
theorem KeepsFixed.keepsSteps_iff {fixed : List (List Draft)} (ht : t.KeepsFixed fixed)
    (h : t.execute c = .ok (t', refusal)) : t.KeepsSteps c t' ↔ ¬ t.BreaksOff Board.Refuses c := by
  constructor
  · rintro hkeeps ⟨hc, op, hop, d, hd, hrefused⟩
    obtain ⟨drafts, hends, hgains⟩ := hkeeps op hop (.inl hc)
    rw [hends.eq_staged hc] at hgains
    -- the board has more items than before, so the drafts were accepted after all
    have hchanged : t'.board.items ≠ t.board.items := by
      intro hsame
      have hlength := congrArg List.length hsame
      rw [hgains.gained, List.length_append, List.length_mapIdx] at hlength
      have hsome := List.length_pos_of_mem hd
      omega
    obtain ⟨accepted, hends', haccepted⟩ := ht.ends hop hchanged h
    rw [hends'.eq_staged hc] at haccepted
    exact hrefused (haccepted d hd)
  · intro hkept op hop hended
    have hends : ∃ drafts, t.Ends op c drafts ∧ ∀ d ∈ drafts, t.board.draftRejection? d = none := by
      have hbroken (hc : c.Interrupts) :
          ∃ drafts, t.Ends op c drafts ∧ ∀ d ∈ drafts, t.board.draftRejection? d = none := by
        refine ⟨op.staged, .brokenOff hc, fun d hd => ?_⟩
        by_contra hrefused
        exact hkept ⟨hc, op, hop, d, hd, hrefused⟩
      rcases hended with hc | hgone
      · exact hbroken hc
      · exact (execute_ends hop hgone h).elim hbroken fun hends => hends
    obtain ⟨drafts, hends, haccepted⟩ := hends
    exact ⟨drafts, hends, ht.gains hop hends haccepted h⟩

/-- Where routes have a proper place, only sizes can be at fault. -/
theorem KeepsProper.breaksOff_iff (ht : t.KeepsProper (Stackup.ofCount n)) (c : Command) :
    t.BreaksOff Board.Refuses c ↔ t.BreaksOffMissized c := by
  refine and_congr_right fun _ => exists_congr fun op => and_congr_right fun hop => ?_
  refine exists_congr fun d => and_congr_right fun hd => ?_
  exact ((ht.stagesProper op hop).1 d hd).refused_iff

/-- **Fixed steps reach the board** at every end of a route, throughout a service, exactly
when no route is broken off that has staged a draft which the board refuses.  On a stackup
of 1 to 32 layers, with an engine that knows it, these are the tracks without width and the
vias whose drill does not fit. -/
theorem serve_keepsSteps_iff {board : Board} (hboard : board.Numbered) (world : World)
    (options : Options) (rules : RuleSet) (search : TreeSearch) (confirms : Bool)
    (os : List Occasion) :
    ((new board world options rules search confirms).Serving (Throughout KeepsSteps) os ↔
      (new board world options rules search confirms).Serving
        (Avoids (BreaksOff Board.Refuses)) os) ∧
    ∀ n, board.stackup = Stackup.ofCount n →
      (∀ b, world = some b → b.stackup = board.stackup) →
      ((new board world options rules search confirms).Serving (Throughout KeepsSteps) os ↔
        (new board world options rules search confirms).Serving (Avoids BreaksOffMissized) os) := by
  have hfixed := keepsFixed_new hboard world options rules search confirms
  have hprompt (t : Tool) (o : Occasion) (ht : ∃ fixed, t.KeepsFixed fixed) :
      ∃ fixed, (t.prompted o).KeepsFixed fixed := by
    obtain ⟨fixed, ht⟩ := ht
    exact ⟨fixed, ht.orderly.prompted o, ht.boards, ht.holds, ht.oneNet⟩
  have hturn (t : Tool) (k : Turn) (t' : Tool) (ht : ∃ fixed, t.KeepsFixed fixed)
      (h : t.turn k = .ok t') : ∃ fixed, t'.KeepsFixed fixed := by
    obtain ⟨fixed, ht⟩ := ht
    exact ⟨_, turn_keepsFixed ht h⟩
  have hstep (t : Tool) (k : Turn) (t' : Tool) (ht : ∃ fixed, t.KeepsFixed fixed)
      (h : t.turn k = .ok t') : (t.ready k).KeepsSteps k.command t' ↔
        ¬ (t.ready k).BreaksOff Board.Refuses k.command := by
    obtain ⟨fixed, ht⟩ := ht
    obtain ⟨refusal, h⟩ := turn_eq_ok.mp h
    exact (ht.ready k).keepsSteps_iff h
  constructor
  · exact serving_throughout_iff_avoids hprompt hturn hstep ⟨[], hfixed⟩ os
  · intro n hstackup hworld
    have hproper := keepsProper_new hstackup (fun b hb => (hworld b hb).trans hstackup) options
      rules search confirms
    refine serving_throughout_iff_avoids
      (I := fun t => (∃ fixed, t.KeepsFixed fixed) ∧ t.KeepsProper (Stackup.ofCount n))
      (fun t o ht => ⟨hprompt t o ht.1, ht.2.prompted o⟩)
      (fun t k t' ht h => ⟨hturn t k t' ht.1 h, turn_keepsProper ht.2 h⟩)
      (fun t k t' ht h => ?_) ⟨⟨[], hfixed⟩, hproper⟩ os
    rw [hstep t k t' ht.1 h, (ht.2.ready k).breaksOff_iff]

/-- A route with a via of the standard size reaches the board when it is broken off. -/
theorem serve_keepsSteps_standard :
    Board.standard.Numbered ∧
      (launch Board.standard Options.standard [] true).Serving
        (Avoids BreaksOffMissized) (viaStep ++ [escape]) ∧
      (launch Board.standard Options.standard [] true).Serving
        (Throughout KeepsSteps) (viaStep ++ [escape]) ∧
      ∃ t, (launch Board.standard Options.standard [] true).serve (viaStep ++ [escape]) = .ok t ∧
        t.board.items.map Item.shape = [.segment ⟨⟨0, 0⟩, ⟨1000000, 0⟩⟩ 250000,
          .via ⟨1000000, 0⟩ 800000 400000 .through] := by
  have hboard : Board.standard.Numbered := Board.numbered_ofFile (f := BoardFile.standard) rfl
  have havoids : (launch Board.standard Options.standard [] true).Serving
      (Avoids BreaksOffMissized) (viaStep ++ [escape]) := by
    refine serving_avoids_cons (c := .startRouting ⟨0, 0⟩ none) (by rfl) ?_ ?_
    · rintro ⟨_, op, hop, _⟩
      cases hop
    refine serving_avoids_cons (c := .placeVia .through none) (by rfl) ?_ ?_
    · rintro ⟨hc, _⟩
      cases hc
    refine serving_avoids_cons (c := .fixRoute ⟨1000000, 0⟩ none false) (by rfl) ?_ ?_
    · rintro ⟨hc, _⟩
      cases hc
    refine serving_avoids_cons (c := .cancelOperation) (by rfl) ?_ trivial
    rintro ⟨_, op, hop, d, hd, hmissized⟩
    have hshapes : op.staged.map Draft.shape = [.segment ⟨⟨0, 0⟩, ⟨1000000, 0⟩⟩ 250000,
        .via ⟨1000000, 0⟩ 800000 400000 .through] := by
      cases hop
      rfl
    have hthere : d.shape ∈ op.staged.map Draft.shape := List.mem_map_of_mem hd
    rw [hshapes] at hthere
    rcases List.mem_pair.mp hthere with htrack | hvia
    · rw [htrack] at hmissized
      exact absurd hmissized (by decide)
    · rw [hvia] at hmissized
      exact absurd hmissized (by decide)
  have hkeeps := ((serve_keepsSteps_iff hboard (some Board.standard) Options.standard _ _ true
    (viaStep ++ [escape])).2 2 rfl stackup_of_loaded).mpr havoids
  exact ⟨hboard, havoids, hkeeps, _, by rfl, by rfl⟩

/-- A route with a via as narrow as its hole is broken off, and its track and its via are
lost. -/
theorem serve_not_keepsSteps :
    ¬ (launch Board.standard Options.standard [narrowVias] true).Serving
      (Throughout KeepsSteps) (viaStep ++ [escape]) := by
  intro hkeeps
  obtain ⟨_, hkeeps⟩ := hkeeps _ (by rfl)
  obtain ⟨_, hkeeps⟩ := hkeeps _ (by rfl)
  obtain ⟨_, hkeeps⟩ := hkeeps _ (by rfl)
  obtain ⟨hescape, _⟩ := hkeeps _ (by rfl)
  obtain ⟨hlast, _⟩ := hescape _ (by rfl)
  obtain ⟨drafts, hends, hgains⟩ := hlast _ rfl (.inl .cancelOperation)
  have hitems := congrArg (fun b => b.items.length) hgains.gained
  rw [hends.eq_staged .cancelOperation] at hitems
  exact absurd hitems (by decide)

end Tool

end CopperRoute
