import CopperRoute.Proofs.Numbering
import CopperRoute.Proofs.StagedCopper

/-!
# How a route reaches the board

A route is assembled over many commands.  Heads are fixed and taken back, vias come and go,
sizes change; what counts in the end are the **fixed heads**, those that were fixed and not
taken back, in the order of fixing (`Tool.fixedHeads`).  They are what the route has staged,
and all of it is copper of the route's net.

A route **ends** in two ways (`Tool.Ends`): it is broken off and leaves its fixed heads, or
it is finished and leaves the last head besides.  When the board accepts these drafts, it
**gains** them (`Board.Gains`): one new item for each of them, in their order, behind all
the items that were there.  Nothing else that happens while a route runs changes the items
of the board (`Tool.run_commitsRoute`).
-/

namespace CopperRoute

/-- The tracks along a path are of the net of the route. -/
theorem net_tracksAlong {r : RouteRequest} {points : List Point} {d : Draft}
    (hd : d ∈ tracksAlong r points) : d.net = r.net := by
  obtain ⟨p, _, rfl⟩ := List.mem_map.mp hd
  rfl

/-- All copper of a head has the net that was asked for. -/
theorem Board.net_routeGeometry {b : Board} {r : RouteRequest} {g : RouteGeometry} {d : Draft}
    (h : b.routeGeometry r = .ok g) (hd : d ∈ g.items) : d.net = r.net := by
  obtain ⟨points, _, hitems⟩ := routeGeometry_items h
  rw [hitems] at hd
  rcases List.mem_append.mp hd with htrack | hvia
  · exact net_tracksAlong htrack
  · obtain ⟨v, _, rfl⟩ := Option.map_eq_some_iff.mp (Option.mem_toList.mp hvia)
    rfl

namespace RouteOp

/-- All fixed copper of the route has its net. -/
def OneNet (op : RouteOp) : Prop := ∀ s ∈ op.steps, ∀ d ∈ s.items, d.net = op.net

/-- All copper of a route of one net is of that net. -/
theorem OneNet.staged {op : RouteOp} (h : op.OneNet) {d : Draft} (hd : d ∈ op.staged) :
    d.net = op.net := by
  obtain ⟨s, hs, hd⟩ := List.mem_flatMap.mp hd
  exact h s hs d hd

/-- Whether a route is of one net depends on its way alone. -/
theorem OneNet.of_sameWay {op op' : RouteOp} (h : op.OneNet) (hsame : op.SameWay op') :
    op'.OneNet := by
  intro s hs d hd
  rw [hsame.net]
  exact h s (hsame.steps ▸ hs) d hd

/-- A route of one net without its via is of one net. -/
theorem OneNet.withdrawVia {op : RouteOp} (h : op.OneNet) : op.withdrawVia.OneNet := by
  unfold RouteOp.withdrawVia
  split <;> exact h

end RouteOp

namespace Tool

/-- Every way that a command can change a route of one net to has one net. -/
theorem Rerouting.oneNet {t : Tool} {op way : RouteOp} {c : Command}
    (hchange : t.Rerouting op c way) (h : op.OneNet) : way.OneNet := by
  cases hchange with
  | kept | hung => exact h
  | withdrawn | jumped | hungBelow => exact h.withdrawVia
  | @extended p id g hanswer _ _ =>
      intro s hs d hd
      rcases List.mem_append.mp hs with hold | hnew
      · exact h s hold d hd
      · obtain ⟨b, _, hg⟩ := World.route_eq_ok hanswer
        rw [List.mem_singleton.mp hnew] at hd
        exact Board.net_routeGeometry hg hd
  | undone hundo =>
      obtain ⟨_, _, rfl⟩ := Option.map_eq_some_iff.mp hundo
      exact fun s hs => h s (List.dropLast_subset _ hs)

/-- However a route was made of one of one net, it is of one net. -/
theorem Reroutes.oneNet {t t' : Tool} {c : Command} {op' : RouteOp} (h : t.Reroutes c t' op')
    (ht : ∀ op, t.session.route? = some op → op.OneNet) : op'.OneNet := by
  cases h with
  | began _ _ hopens _ =>
      rw [hopens.fresh]
      exact fun s hs => by cases hs
  | changed hop hchange hsame _ => exact (hchange.oneNet (ht _ hop)).of_sameWay hsame

/-- **The fixed heads** after a command: a new route has none, a head from which the route
goes on is added at the end, and the last one can be taken back. -/
def fixedAfter (t : Tool) (fixed : List (List Draft)) : Command → List (List Draft)
  | .startRouting _ _ => []
  | .undoLastSegment => fixed.dropLast
  | .fixRoute p id finish =>
    match t.session.route?.map fun op => t.world.route (t.asks (op.aim p id op.ortho)) with
    | some (.ok (.ok g)) =>
      if finish || g.reachedTarget || g.items.isEmpty then fixed else fixed ++ [g.items]
    | _ => fixed
  | _ => fixed

/-- The fixed heads after a run. -/
def fixedHeads (t : Tool) (fixed : List (List Draft)) : List Turn → List (List Draft)
  | [] => fixed
  | k :: ks =>
    match t.turn k with
    | .ok u => u.fixedHeads (t.fixedAfter fixed k.command) ks
    | .error _ => fixed

/-- The steps of a route hold these heads. -/
def Holds (t : Tool) (fixed : List (List Draft)) : Prop :=
  ∀ op, t.session.route? = some op → op.steps.map RouteStep.items = fixed

/-- A fix adds a head when the route goes on from it. -/
theorem fixedAfter_fixRoute {t : Tool} {op : RouteOp} (hop : t.session.route? = some op)
    (fixed : List (List Draft)) (p : Point) (id : Option ItemId) (finish : Bool) :
    (∃ g, t.world.route (t.asks (op.aim p id op.ortho)) = .ok (.ok g) ∧ finish = false ∧
        g.reachedTarget = false ∧ g.items ≠ [] ∧
        t.fixedAfter fixed (.fixRoute p id finish) = fixed ++ [g.items]) ∨
      t.fixedAfter fixed (.fixRoute p id finish) = fixed := by
  rw [fixedAfter, hop, Option.map_some]
  split
  · next g hanswer =>
      split
      · exact .inr rfl
      · next hopen =>
          simp only [Bool.or_eq_true, not_or, Bool.not_eq_true] at hopen
          refine .inl ⟨g, Option.some.inj hanswer, hopen.1.1, hopen.1.2, ?_, rfl⟩
          simpa using hopen.2
  · exact .inr rfl

/-- Fixing a head adds it to the heads that the route holds. -/
theorem fixRoute_holds {t t' : Tool} {fixed : List (List Draft)} {p : Point} {id : Option ItemId}
    {finish : Bool} (ht : t.Holds fixed) (h : t.fixRoute p id finish = .ok t') :
    t'.Holds (t.fixedAfter fixed (.fixRoute p id finish)) := by
  intro op' hop'
  cases (fixRoute_derives hop' h).reroutes with
  | began hcommand => cases hcommand
  | @changed op way hop hchange hsame _ =>
      rcases fixedAfter_fixRoute hop fixed p id finish with hextends | hsame'
      · obtain ⟨g, hanswer, rfl, hmissed, hcopper, hfixed⟩ := hextends
        obtain ⟨hextended, _⟩ := fixRoute_extends hop hanswer hmissed hcopper h
        cases hextended.symm.trans hop'
        rw [hfixed, ← ht op hop]
        exact List.map_append
      · rw [hsame.steps, hsame']
        cases hchange with
        | kept => exact ht op hop
        | withdrawn htakes => cases htakes
        | extended hanswer hmissed hcopper =>
            -- the head would have been added
            exfalso
            simp [fixedAfter, hop, hanswer, hmissed, hcopper] at hsame'

/-- Taking a step back takes its head back. -/
theorem undoLastSegment_holds {t t' : Tool} {fixed : List (List Draft)} (ht : t.Holds fixed)
    (h : t.undoLastSegment = .ok t') : t'.Holds fixed.dropLast := by
  intro op' hop'
  cases (undoLastSegment_derives hop' h).reroutes with
  | began hcommand => cases hcommand
  | @changed op way hop hchange hsame _ =>
      cases hundo : op.undoStep with
      | some back =>
          obtain ⟨op₁, hop₁, hredraws, _⟩ := undoLastSegment_restores hop hundo h
          cases hop₁.symm.trans hop'
          obtain ⟨_, _, rfl⟩ := Option.map_eq_some_iff.mp hundo
          rw [hredraws.steps, ← ht op hop]
          exact List.map_dropLast
      | none =>
          have hsteps : op.steps = [] := by simpa [RouteOp.undoStep] using hundo
          rw [hsame.steps, ← ht op hop, hsteps]
          cases hchange with
          | kept => rw [hsteps]; rfl
          | withdrawn htakes => cases htakes
          | undone hback => cases hundo.symm.trans hback

/-- Only fixing and taking back change the steps of a route. -/
theorem Rerouting.steps_kept {t : Tool} {op way : RouteOp} {c : Command}
    (hchange : t.Rerouting op c way) :
    way.steps = op.steps ∨ (∃ p id finish, c = .fixRoute p id finish) ∨ c = .undoLastSegment := by
  cases hchange with
  | kept | hung => exact .inl rfl
  | withdrawn | jumped | hungBelow => exact .inl op.steps_withdrawVia
  | extended => exact .inr (.inl ⟨_, _, _, rfl⟩)
  | undone => exact .inr (.inr rfl)

/-- Every other command that keeps the route leaves its fixed heads alone. -/
theorem execute_holds {t t' : Tool} {c : Command} {refusal : Option CommandRefusal}
    {fixed : List (List Draft)} (ht : t.Orderly) (hfixed : t.Holds fixed)
    (h : t.execute c = .ok (t', refusal)) : t'.Holds (t.fixedAfter fixed c) := by
  cases c with
  | startRouting p id =>
      intro op' hop'
      obtain ⟨u, _, hopens, _⟩ := startRouting_began ht hop' (Checked.of_tagged h)
      rw [hopens.fresh]
      rfl
  | fixRoute p id finish => exact fixRoute_holds hfixed (Checked.of_tagged h)
  | undoLastSegment => exact undoLastSegment_holds hfixed (Checked.of_tagged h)
  | _ =>
      intro op' hop'
      cases execute_reroutes ht hop' h with
      | began hcommand => cases hcommand
      | @changed op way hop hchange hsame _ =>
          rcases hchange.steps_kept with hkept | ⟨_, _, _, hfix⟩ | hundo
          · rw [hsame.steps, hkept]
            exact hfixed op hop
          · cases hfix
          · cases hundo

end Tool

namespace Board

/-- **The board gains drafts** as copper of a net: one new item for each of them, in their
order and with consecutive identifiers, behind all items that were there. -/
structure Gains (b : Board) (net : NetCode) (ds : List Draft) (b' : Board) : Prop where
  room : b.nextId.toNat + ds.length < UInt64.size
  gained : b' = { b with
    items := b.items ++ ds.mapIdx fun n d =>
      { id := b.nextId + UInt64.ofNat n
        shape := d.shape
        net := net
        layers := d.layers
        locked := false
        parent := none }
    nextId := b.nextId + UInt64.ofNat ds.length }

/-- The changeset has been taken over, or there was nothing to take over. -/
def TakesOver (b : Board) (c : Changeset) (b' : Board) : Prop :=
  (c.isEmpty = true ∧ b' = b) ∨ ∃ report, b.commit c = .ok (.applied b' report)

/-- A numbered board gains the drafts that it takes over. -/
theorem TakesOver.gains {b b' : Board} {c : Changeset} {net : NetCode} (h : b.TakesOver c b')
    (hb : b.Numbered) (hmodified : c.modified = []) (hremoved : c.removed = [])
    (hnet : ∀ d ∈ c.added, d.net = net) : b.Gains net c.added b' := by
  rcases h with ⟨hempty, rfl⟩ | ⟨report, hcommit⟩
  · rw [(Changeset.isEmpty_iff.mp hempty).1]
    exact ⟨UInt64.toNat_lt_size _, by simp⟩
  · obtain ⟨_, hadd⟩ := commit_eq_applied hcommit
    rw [hmodified, hremoved] at hadd
    obtain ⟨_, hroom, hb'⟩ := hb.addAll hadd
    refine ⟨hroom, hb'.trans ?_⟩
    have hitems : numberFrom b.nextId c.added = c.added.mapIdx fun n d =>
        ⟨b.nextId + UInt64.ofNat n, d.shape, net, d.layers, false, none⟩ := by
      refine List.ext_getElem (by simp [numberFrom]) fun n hn _ => ?_
      simp [numberFrom, Draft.withId, hnet]
    show ({ b with items := b.items ++ _, nextId := _ } : Board) = _
    rw [hitems]

end Board

namespace Tool

/-- **How a route ends**, and which drafts it leaves: it is broken off, or finished with the
head that the engine gives. -/
inductive Ends (t : Tool) (op : RouteOp) : Command → List Draft → Prop
  | brokenOff {c : Command} (hinterrupts : c.Interrupts) : Ends t op c op.staged
  | finished {p : Point} {id : Option ItemId} {finish : Bool} {g : RouteGeometry}
      (hanswer : t.world.route (t.asks (op.aim p id op.ortho)) = .ok (.ok g))
      (hlast : finish = true ∨ g.reachedTarget = true) :
      Ends t op (.fixRoute p id finish) (op.staged ++ g.items)

/-- How a route ends depends only on what the engine is asked, and knows. -/
theorem Ends.congr {t u : Tool} {op : RouteOp} {c : Command} {drafts : List Draft}
    (h : t.Ends op c drafts) (hworld : u.world = t.world) (hasks : u.asks = t.asks) :
    u.Ends op c drafts := by
  cases h with
  | brokenOff hinterrupts => exact .brokenOff hinterrupts
  | finished hanswer hlast =>
      refine .finished ?_ hlast
      rw [hworld, hasks]
      exact hanswer

/-- What a command can commit while a route runs ends the route: nothing is dragged then,
and nothing can be broken. -/
theorem Commits.ends {t : Tool} {op : RouteOp} {c : Command} {changes : Changeset}
    (h : t.Commits c changes) (hop : t.session.route? = some op)
    (hbusy : t.session.isIdle = false) :
    t.Ends op c changes.added ∧ changes.modified = [] ∧ changes.removed = [] := by
  cases h with
  | staged hop' hinterrupts =>
      cases hop.symm.trans hop'
      have hadded : (op.changeset none).added = op.staged := List.append_nil _
      rw [hadded]
      exact ⟨.brokenOff hinterrupts, rfl, rfl⟩
  | finished hop' hanswer hlast =>
      cases hop.symm.trans hop'
      exact ⟨.finished hanswer hlast, rfl, rfl⟩
  | dragged hdrag => cases (Session.drag?_of_route hop).symm.trans hdrag
  | broken _ hidle => cases hbusy.symm.trans hidle

/-- **A commit** takes an accepted changeset over. -/
theorem commit_takesOver {t t' : Tool} {c : Changeset} {r : Except CommitRejection CommitReport}
    (haccepted : t.board.rejection? c = none) (h : t.commit c = .ok (r, t')) :
    t.board.TakesOver c t'.board := by
  cases hempty : c.isEmpty with
  | false => exact .inr (commit_applies haccepted hempty h)
  | true =>
      rcases commit_eq_ok h with ⟨_, rfl⟩ | ⟨_, rfl⟩ | ⟨_, report, _, hcommit, _, _, rfl⟩
      · exact .inl ⟨hempty, rfl⟩
      · exact .inl ⟨hempty, rfl⟩
      · exact .inr ⟨report, hcommit⟩

variable {t u t' : Tool} {op : RouteOp}

/-- Fixed steps that are accepted are taken over. -/
theorem commitStaged_takesOver (hop : t.session.route? = some op)
    (haccepted : t.board.rejection? (op.changeset none) = none) (h : t.commitStaged = .ok t') :
    t.board.TakesOver (op.changeset none) t'.board := by
  unfold commitStaged at h
  split at h
  · next hnone =>
      cases h
      refine .inl ⟨?_, rfl⟩
      rw [stagedChanges?, hop, Option.map_some, Option.filter_eq_none_iff] at hnone
      simpa using hnone
  · next changes hstaged =>
      rw [stagedChanges?, hop, Option.map_some] at hstaged
      obtain ⟨⟨r, v⟩, hcommit, h⟩ := Checked.bind_eq_ok.mp h
      cases (Option.filter_eq_some_iff.mp hstaged).1
      -- what the host hears about the commit does not matter for the board
      have hboard : t'.board = v.board := by cases r <;> cases h <;> rfl
      rw [hboard]
      exact commit_takesOver haccepted hcommit

/-- Fixed steps that are accepted are taken over when the route is stopped. -/
theorem stopOperation_takesOver {stopped : Bool} (hop : t.session.route? = some op)
    (haccepted : t.board.rejection? (op.changeset none) = none)
    (h : t.stopOperation = .ok (t', stopped)) : t.board.TakesOver (op.changeset none) t'.board := by
  obtain ⟨v, hstaged, h⟩ := Checked.bind_eq_ok.mp h
  have hboard : t'.board = v.board := by
    generalize v.toInteraction.cancel = cancelled at h
    cases h
    rfl
  rw [hboard]
  exact commitStaged_takesOver hop haccepted hstaged

/-- Fixed steps that are accepted are taken over when another operation begins. -/
theorem Begins.takesOver (h : t.Begins u t') (ht : t.Orderly) (hop : t.session.route? = some op)
    (haccepted : t.board.rejection? (op.changeset none) = none) :
    t.board.TakesOver (op.changeset none) t'.board := by
  have hidle := h.idle
  rw [makeIdle, ht.busy hop] at hidle
  obtain ⟨⟨v, stopped⟩, hstop, hidle⟩ := Checked.bind_eq_ok.mp hidle
  cases hidle
  rw [h.same.board]
  exact stopOperation_takesOver hop haccepted hstop

/-- **A route that is broken off** leaves what is fixed. -/
theorem execute_takesOver {c : Command} {refusal : Option CommandRefusal} (hc : c.Interrupts)
    (ht : t.Orderly) (hop : t.session.route? = some op)
    (haccepted : t.board.rejection? (op.changeset none) = none)
    (h : t.execute c = .ok (t', refusal)) : t.board.TakesOver (op.changeset none) t'.board := by
  cases hc with
  | startRouting =>
      obtain ⟨u, hbegins⟩ := startRouting_begins ht (Checked.of_tagged h)
      exact hbegins.takesOver ht hop haccepted
  | startDrag =>
      obtain ⟨u, hbegins⟩ := startDrag_begins ht (Checked.of_tagged h)
      exact hbegins.takesOver ht hop haccepted
  | startFootprintDrag =>
      obtain ⟨u, hbegins⟩ := startFootprintDrag_begins ht (Checked.of_tagged h)
      exact hbegins.takesOver ht hop haccepted
  | cancelOperation =>
      obtain ⟨⟨v, stopped⟩, hstop, h⟩ := Checked.bind_eq_ok.mp (Checked.of_tagged h)
      have hboard : t'.board = v.board := by cases stopped <;> cases h <;> rfl
      rw [hboard]
      exact stopOperation_takesOver (t := t.mapSession fun s => { s with pendingViaTarget := none })
        hop haccepted hstop

/-- **A route that is finished** leaves its last head besides. -/
theorem fixRoute_takesOver {p : Point} {id : Option ItemId} {finish : Bool} {g : RouteGeometry}
    (hop : t.session.route? = some op)
    (hanswer : t.world.route (t.asks (op.aim p id op.ortho)) = .ok (.ok g))
    (hlast : finish = true ∨ g.reachedTarget = true)
    (haccepted : t.board.rejection? (op.changeset (some g)) = none)
    (h : t.fixRoute p id finish = .ok t') : t.board.TakesOver (op.changeset (some g)) t'.board := by
  -- the head is aimed first, which leaves the engine's answer and the fixed steps alone
  obtain ⟨v, hmove, h⟩ := Checked.bind_eq_ok.mp h
  obtain ⟨hworld, hboard, hrequest, _⟩ := moveHead_request? hop hmove
  obtain ⟨op₁, hop₁, _⟩ := Option.map_eq_some_iff.mp hrequest
  obtain ⟨op₀, hop₀, hredraws⟩ := (moveHead_keepsRoute hmove).route op₁ hop₁
  cases hop.symm.trans hop₀
  have hdone : (finish || g.reachedTarget) = true := by simpa using hlast
  simp only [hrequest, hworld, hanswer, Checked.bind_eq_ok, Except.ok.injEq, exists_eq_left',
    hdone, if_true] at h
  obtain ⟨⟨r, x⟩, hcommit, h⟩ := Checked.bind_eq_ok.mp h
  rw [hop₁, Option.map_some, Option.getD_some, hredraws.changeset] at hcommit
  have hsame : t'.board = x.board := by cases r <;> cases h <;> rfl
  rw [hsame, ← hboard]
  exact commit_takesOver (t := v.mapSession Session.beginFix) (hboard ▸ haccepted) hcommit

/-- **The invariant.**  All boards are numbered, and the running route holds these heads of
its own net. -/
structure KeepsFixed (fixed : List (List Draft)) (t : Tool) : Prop where
  orderly : t.Orderly
  boards : ∀ b ∈ t.boards, b.Numbered
  holds : t.Holds fixed
  oneNet : ∀ op, t.session.route? = some op → op.OneNet

/-- The answers of the host do not touch the fixed heads. -/
theorem KeepsFixed.ready {fixed : List (List Draft)} (ht : t.KeepsFixed fixed) (k : Turn) :
    (t.ready k).KeepsFixed fixed :=
  ⟨ht.orderly.ready k, ht.boards, ht.holds, ht.oneNet⟩

/-- A turn fixes the heads that its command fixes. -/
theorem turn_keepsFixed {fixed : List (List Draft)} {k : Turn} (ht : t.KeepsFixed fixed)
    (h : t.turn k = .ok t') : t'.KeepsFixed (t.fixedAfter fixed k.command) := by
  obtain ⟨horderly, hboards⟩ := turn_wellNumbered ⟨ht.orderly, ht.boards⟩ h
  obtain ⟨refusal, h⟩ := turn_eq_ok.mp h
  replace ht := ht.ready k
  have hsame : (t.ready k).fixedAfter fixed k.command = t.fixedAfter fixed k.command := by
    cases k.command <;> rfl
  refine ⟨horderly, hboards, ?_, ?_⟩
  · rw [← hsame]
    exact execute_holds ht.orderly ht.holds h
  · intro op' hop'
    exact (execute_reroutes ht.orderly hop' h).oneNet ht.oneNet

/-- A run fixes the heads of its commands, one after the other. -/
theorem run_keepsFixed {fixed : List (List Draft)} {ks : List Turn} (ht : t.KeepsFixed fixed)
    (h : t.run ks = .ok t') : t'.KeepsFixed (t.fixedHeads fixed ks) := by
  induction ks generalizing t fixed with
  | nil =>
      cases h
      exact ht
  | cons k ks ih =>
      obtain ⟨u, hturn, hrest⟩ := run_cons_eq_ok.mp h
      rw [fixedHeads, hturn]
      exact ih (turn_keepsFixed ht hturn) hrest

/-- A new tool holds no heads. -/
theorem keepsFixed_new {board : Board} (hboard : board.Numbered) (world : World)
    (options : Options) (rules : RuleSet) (search : TreeSearch) (confirms : Bool) :
    (new board world options rules search confirms).KeepsFixed [] := by
  obtain ⟨horderly, hboards⟩ := wellNumbered_new hboard world options rules search confirms
  refine ⟨horderly, hboards, ?_, ?_⟩
  · intro op hop
    cases hop
  · intro op hop
    cases hop

/-- **A route that ends** with drafts that the board accepts is taken over. -/
theorem KeepsFixed.gains {fixed : List (List Draft)} {c : Command} {drafts : List Draft}
    {refusal : Option CommandRefusal} (ht : t.KeepsFixed fixed) (hop : t.session.route? = some op)
    (hends : t.Ends op c drafts) (haccepted : ∀ d ∈ drafts, t.board.draftRejection? d = none)
    (h : t.execute c = .ok (t', refusal)) : t.board.Gains op.net drafts t'.board := by
  have hnumbered := ht.boards _ t.board_mem_boards
  have haccepts (head : Option RouteGeometry) (hadded : (op.changeset head).added = drafts) :
      t.board.rejection? (op.changeset head) = none := by
    have hnone : (op.changeset head).added.findSome? t.board.draftRejection? = none := by
      rw [hadded]
      exact List.findSome?_eq_none_iff.mpr haccepted
    rw [Board.rejection?, hnone]
    rfl
  cases hends with
  | brokenOff hinterrupts =>
      have hadded : (op.changeset none).added = op.staged := List.append_nil _
      have htakes := execute_takesOver hinterrupts ht.orderly hop (haccepts none hadded) h
      have hnet : ∀ d ∈ (op.changeset none).added, d.net = op.net := by
        intro d hd
        rw [hadded] at hd
        exact (ht.oneNet op hop).staged hd
      exact hadded ▸ htakes.gains hnumbered rfl rfl hnet
  | @finished p id finish g hanswer hlast =>
      have htakes := fixRoute_takesOver hop hanswer hlast (haccepts (some g) rfl)
        (Checked.of_tagged h)
      have hnet : ∀ d ∈ (op.changeset (some g)).added, d.net = op.net := by
        intro d hd
        rcases List.mem_append.mp hd with hd | hd
        · exact (ht.oneNet op hop).staged hd
        · obtain ⟨b, _, hg⟩ := World.route_eq_ok hanswer
          exact Board.net_routeGeometry hg hd
      exact htakes.gains hnumbered rfl rfl hnet

/-- **Nothing else** changes the items of the board while a route runs. -/
theorem KeepsFixed.ends {fixed : List (List Draft)} {c : Command}
    {refusal : Option CommandRefusal} (ht : t.KeepsFixed fixed) (hop : t.session.route? = some op)
    (hchanged : t'.board.items ≠ t.board.items) (h : t.execute c = .ok (t', refusal)) :
    ∃ drafts, t.Ends op c drafts ∧ ∀ d ∈ drafts, t.board.draftRejection? d = none := by
  have hbusy := ht.orderly.busy hop
  -- the history is closed while a route runs
  cases (execute_changes ht.orderly h).boards.way with
  | kept hboard | loaded hboard | unloaded hboard => exact absurd (by rw [hboard]) hchanged
  | undone _ _ _ hidle | redone _ _ _ hidle => cases hbusy.symm.trans hidle
  | committed hcommits hcommit =>
      have haccepted := (Board.commit_eq_applied hcommit).1
      rw [Board.rejection?, Option.or_eq_none_iff] at haccepted
      exact ⟨_, (hcommits.ends hop hbusy).1, List.findSome?_eq_none_iff.mp haccepted.1⟩

/-- **What a route leaves.**  In every state that a run reaches, the fixed copper of the
route consists of the fixed heads.  When the route ends and the board accepts what it
leaves, the board gains exactly these drafts; and while a route runs, this is the only way
in which the items of the board change. -/
theorem run_commitsRoute {board : Board} (hboard : board.Numbered) (world : World)
    (options : Options) (rules : RuleSet) (search : TreeSearch) (confirms : Bool) {ks : List Turn}
    {t t' : Tool} {op : RouteOp} {k : Turn}
    (hrun : (new board world options rules search confirms).run ks = .ok t)
    (hop : t.session.route? = some op) (hturn : t.turn k = .ok t') :
    op.staged = ((new board world options rules search confirms).fixedHeads [] ks).flatten ∧
      (∀ drafts, t.Ends op k.command drafts → (∀ d ∈ drafts, t.board.draftRejection? d = none) →
        t.board.Gains op.net drafts t'.board) ∧
      (t'.board.items ≠ t.board.items →
        ∃ drafts, t.Ends op k.command drafts ∧ t.board.Gains op.net drafts t'.board) := by
  have ht := run_keepsFixed (keepsFixed_new hboard world options rules search confirms) hrun
  obtain ⟨refusal, h⟩ := turn_eq_ok.mp hturn
  have hgains {drafts : List Draft} (hends : t.Ends op k.command drafts)
      (haccepted : ∀ d ∈ drafts, t.board.draftRejection? d = none) :
      t.board.Gains op.net drafts t'.board :=
    (ht.ready k).gains hop (hends.congr rfl rfl) haccepted h
  refine ⟨?_, ?_, ?_⟩
  · rw [← ht.holds op hop]
    rfl
  · intro drafts
    exact hgains
  · intro hchanged
    obtain ⟨drafts, hends, haccepted⟩ := (ht.ready k).ends hop hchanged h
    replace hends : t.Ends op k.command drafts := hends.congr rfl rfl
    exact ⟨drafts, hends, hgains hends haccepted⟩

/-- A route of two heads; the second one took the place of another. -/
def replacedHeadTurns : List Turn :=
  [⟨.startRouting ⟨0, 0⟩ none, true⟩, ⟨.fixRoute ⟨1000000, 0⟩ none false, true⟩,
    ⟨.fixRoute ⟨1000000, 1000000⟩ none false, true⟩, ⟨.undoLastSegment, true⟩,
    ⟨.fixRoute ⟨2000000, 0⟩ none false, true⟩]

/-- When it is finished, the board has gained three tracks. -/
theorem run_commitsRoute_replaced_head :
    Board.standard.Numbered ∧ ∃ t op t',
      (launch Board.standard Options.standard [] true).run replacedHeadTurns = .ok t ∧
        t.session.route? = some op ∧
        t.turn ⟨.fixRoute ⟨2000000, 1000000⟩ none true, true⟩ = .ok t' ∧
        t'.board.items ≠ t.board.items ∧ op.staged.length = 2 ∧
        ∃ drafts, t.Ends op (.fixRoute ⟨2000000, 1000000⟩ none true) drafts ∧
          t.board.Gains op.net drafts t'.board ∧ t'.board.items.map Item.id = [1, 2, 3] := by
  have hboard : Board.standard.Numbered := Board.numbered_ofFile (f := BoardFile.standard) rfl
  obtain ⟨t, op, t', hrun, hop, hturn, hbefore, hafter, hstaged⟩ : ∃ t op t',
      (launch Board.standard Options.standard [] true).run replacedHeadTurns = .ok t ∧
        t.session.route? = some op ∧
        t.turn ⟨.fixRoute ⟨2000000, 1000000⟩ none true, true⟩ = .ok t' ∧
        t.board.items = [] ∧ t'.board.items.map Item.id = [1, 2, 3] ∧ op.staged.length = 2 :=
    ⟨_, _, _, by rfl, by rfl, by rfl, by rfl, by rfl, by rfl⟩
  have hchanged : t'.board.items ≠ t.board.items := by
    intro hsame
    rw [hsame, hbefore] at hafter
    cases hafter
  obtain ⟨drafts, hends, hgains⟩ := (run_commitsRoute hboard (some Board.standard) Options.standard
    _ _ true hrun hop hturn).2.2 hchanged
  exact ⟨hboard, t, op, t', hrun, hop, hturn, hchanged, hstaged, drafts, hends, hgains, hafter⟩

end Tool

end CopperRoute
