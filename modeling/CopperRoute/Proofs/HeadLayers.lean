import CopperRoute.Proofs.Standstill
import CopperRoute.Proofs.Undoing

/-!
# The layer of a route, kept three times

While a route runs, a layer stands in three places: at its head, at both ends of the via
that may hang there, and in the session as the active one, where the next head will lie.
Every command that moves the head writes them separately.

* The session **goes on** with the route (`Session.GoesOn`): its active layer is the one
  behind the via, or the one of the head.  That needs no more than an orderly tool.
* The via at the head leads to another layer, and so does every via that taking a step back
  can bring there again (`RouteOp.Crosses`).
* The route lies in the stackup of the board.  The via policy looks at the stackup, and a
  head that goes on directly goes to an enabled layer; so this holds whatever board the
  engine works on (`Tool.KeepsPlace`).
-/

namespace CopperRoute

/-- **The session goes on** on the layer that the running route leads to. -/
def Session.GoesOn (s : Session) : Prop :=
  ∀ op, s.route? = some op → s.activeLayer = Tool.nextLayer op

/-- The way of a route decides where it leads. -/
theorem RouteOp.SameWay.nextLayer {op op' : RouteOp} (h : op.SameWay op') :
    Tool.nextLayer op' = Tool.nextLayer op := by
  have hplaces := h.via
  cases hvia : op.via with
  | none =>
      rw [hvia, Option.map_none, Option.map_eq_none_iff] at hplaces
      simp only [Tool.nextLayer, hvia, hplaces, h.layer]
  | some p =>
      rw [hvia, Option.map_some] at hplaces
      obtain ⟨q, hq, hplace⟩ := Option.map_eq_some_iff.mp hplaces
      simp only [Tool.nextLayer, hvia, hq]
      exact congrArg (fun place => place.2.2) hplace

namespace Session.GoesOn

variable {s s' : Session}

/-- Without a route there is nothing to go on with. -/
theorem of_none (hnone : s.route? = none) : s.GoesOn := by
  intro op hop
  rw [hnone] at hop
  cases hop

/-- A session goes on while its route and its active layer stay. -/
theorem of_eq (h : s.GoesOn) (hroute : s'.route? = s.route?)
    (hlayer : s'.activeLayer = s.activeLayer) : s'.GoesOn := by
  intro op hop
  rw [hlayer]
  exact h op (hroute ▸ hop)

/-- A session goes on while its route comes the same way. -/
theorem mapRoute (h : s.GoesOn) {f : RouteOp → RouteOp}
    (hf : ∀ op : RouteOp, op.SameWay (f op)) : (s.mapRoute f).GoesOn := by
  intro op' hop'
  obtain ⟨op, hop, rfl⟩ := Option.map_eq_some_iff.mp ((route?_mapRoute s f).symm.trans hop')
  rw [mapRoute_activeLayer, (hf op).nextLayer]
  exact h op hop

/-- A via that is taken back takes the session back with it. -/
theorem withdrawVia (h : s.GoesOn) : s.withdrawVia.GoesOn := by
  unfold Session.withdrawVia
  split
  · next pending hpending =>
      obtain ⟨op, hop, hvia⟩ := Option.bind_eq_some_iff.mp hpending
      intro op' hop'
      have hroute : some op.withdrawVia = some op' := by
        rw [← hop', ← Option.map_some, ← hop]
        exact (s.route?_mapRoute _).symm
      cases hroute
      show pending.fromLayer = _
      simp only [Tool.nextLayer, RouteOp.withdrawVia, hvia]
  · exact h

/-- Behind a fixed step the session goes on on the layer of the next head. -/
theorem extendRoute (s : Session) (g : RouteGeometry) : (s.extendRoute g).GoesOn := by
  intro op' hop'
  have hroute : ((s.beginFix.mapRoute fun op => op.pushStep g).resume).route? = some op' := hop'
  have hpushed := (s.route?_extendRoute g).symm.trans hop'
  obtain ⟨op, _, rfl⟩ := Option.map_eq_some_iff.mp hpushed
  show (Option.map RouteOp.layer _).getD _ = _
  rw [hroute]
  rfl

end Session.GoesOn

namespace Tool

variable {t t' u : Tool} {c : Command}

/-- After a new head the session goes on. -/
theorem refreshHead_goesOn (ht : t.session.GoesOn) (h : t.refreshHead = .ok t') :
    t'.session.GoesOn := by
  rcases refreshHead_eq_ok h with rfl | ⟨g, rfl⟩
  · exact ht
  · exact ht.mapRoute fun op => (op.redraws_head (some g)).sameWay

/-- A session that starts a route goes on with it. -/
theorem startRouting_goesOn {p : Point} {id : Option ItemId} (ht : t.Orderly)
    (h : t.startRouting p id = .ok t') : t'.session.GoesOn := by
  obtain ⟨u, hidle, h⟩ := Checked.bind_eq_ok.mp h
  have hnone : u.session.route? = none := Session.route?_of_none (makeIdle_advances ht hidle).2
  simp only at h
  split at h
  · simp only [openRoute] at h
    obtain ⟨start, _, h⟩ := Checked.bind_eq_ok.mp h
    obtain ⟨refusal, _, h⟩ := Checked.bind_eq_ok.mp h
    cases refusal with
    | some reason =>
        cases h
        exact .of_none hnone
    | none =>
        cases h
        intro op hop
        cases hop
        rfl
  · cases h
    exact .of_none hnone

/-- After a move of the head the session goes on. -/
theorem moveHead_goesOn {p : Point} {id : Option ItemId} {ortho : Bool} (ht : t.session.GoesOn)
    (h : t.moveHead p id ortho = .ok t') : t'.session.GoesOn := by
  have hpointed : { t.session with cursor := p }.GoesOn := ht.of_eq rfl rfl
  refine refreshHead_goesOn ?_ h
  exact hpointed.mapRoute fun op => op.sameWay_aim p id ortho

/-- After the end of a route there is nothing to go on with, and a refused one goes on. -/
theorem finishRoute_goesOn {g : RouteGeometry} (ht : t.session.GoesOn)
    (h : t.finishRoute g = .ok t') : t'.session.GoesOn := by
  obtain ⟨⟨r, u⟩, hcommit, h⟩ := Checked.bind_eq_ok.mp h
  have hsession := commit_session hcommit
  cases r with
  | ok report =>
      cases h
      exact .of_none (Session.route?_of_none (Session.operation_finished _ _))
  | error reason =>
      cases h
      show u.session.resume.GoesOn
      rw [hsession]
      exact ht.of_eq rfl rfl

/-- After a fix the session goes on, on the layer behind the via. -/
theorem fixRoute_goesOn {p : Point} {id : Option ItemId} {finish : Bool} (ht : t.session.GoesOn)
    (h : t.fixRoute p id finish = .ok t') : t'.session.GoesOn := by
  obtain ⟨u, hmove, houtcome⟩ := fixRoute_eq_ok h
  have hu := moveHead_goesOn ht hmove
  cases houtcome with
  | idle _ hsame | bare _ _ _ hsame =>
      rw [hsame]
      exact hu
  | unsolved _ _ hreported =>
      rw [hreported]
      exact hu
  | finished _ _ _ hfinish => exact finishRoute_goesOn hu hfinish
  | @extended r g _ _ _ _ _ hextended =>
      rw [hextended]
      exact .extendRoute u.session g

/-- When a step is taken back the active layer goes back with it. -/
theorem undoLastSegment_goesOn (ht : t.session.GoesOn) (h : t.undoLastSegment = .ok t') :
    t'.session.GoesOn := by
  unfold undoLastSegment at h
  split at h
  · cases h
    exact ht
  · refine refreshHead_goesOn (fun op hop => ?_) h
    cases hop
    rfl

/-- After a via is hung on or taken back the session goes on. -/
theorem placeVia_goesOn {v : ViaType} {target : Option LayerId} (ht : t.session.GoesOn)
    (h : t.placeVia v target = .ok t') : t'.session.GoesOn := by
  have hready : { t.session with pendingViaTarget := none }.GoesOn := ht.of_eq rfl rfl
  unfold placeVia toggleVia at h
  split at h
  · cases h
    exact hready
  · split at h
    · exact refreshHead_goesOn hready.withdrawVia h
    · split at h
      · cases h
        exact hready
      · refine refreshHead_goesOn (fun op hop => ?_) h
        cases hop
        rfl

/-- After a switch of layers the session goes on, on the new one. -/
theorem switchLayer_goesOn {command : LayerCommand} (ht : t.session.GoesOn)
    (h : t.switchLayer command = .ok t') : t'.session.GoesOn := by
  have hready := ht.withdrawVia
  simp only [switchLayer, goToLayer] at h
  split at h
  · cases h
    exact hready
  · next hrequest =>
      cases h
      exact .of_none (Option.map_eq_none_iff.mp hrequest)
  · next layer _ _ _ =>
      unfold routeToLayer at h
      split at h
      · refine refreshHead_goesOn (fun op' hop' => ?_) h
        -- no via hangs at a head that goes on directly
        obtain ⟨op, hop, rfl⟩ :=
          Option.map_eq_some_iff.mp ((Session.route?_mapRoute _ _).symm.trans hop')
        obtain ⟨before, _, rfl⟩ :=
          Option.map_eq_some_iff.mp ((Session.route?_withdrawVia _).symm.trans hop)
        show layer = _
        simp only [nextLayer, before.via_withdrawVia]
      · exact placeVia_goesOn hready h
      · cases h
        exact hready

/-- New sizes do not change where the route leads. -/
theorem redesigns_goesOn {change : Design → Design} {refusal : Option CommandRefusal}
    (hc : c.Redesigns change) (ht : t.session.GoesOn) (h : t.execute c = .ok (t', refusal)) :
    t'.session.GoesOn := by
  rcases execute_redesigns hc with ⟨_, e, hrejected⟩ | ⟨_, hchanges⟩
  · cases (hrejected t).symm.trans h
    exact ht
  · rw [hchanges t] at h
    refine refreshHead_goesOn ?_ (Checked.of_tagged h)
    exact ht.mapRoute fun op => op.sameWay_renewSizes _ _

/-- After a choice of layers for vias the session goes on. -/
theorem selectLayerPair_goesOn (ht : t.session.GoesOn) (pair : LayerPair) :
    (t.selectLayerPair pair).session.GoesOn := by
  unfold selectLayerPair
  split
  · exact ht
  · exact ht.mapRoute fun op => op.sameWay_usePair pair

/-- What needs an idle session keeps the session, or does nothing. -/
theorem goesOn_of_idle (ht : t.session.GoesOn)
    (h : t' = t ∨ (t.session.isIdle = true ∧ t'.session = t.session)) : t'.session.GoesOn := by
  rcases h with rfl | ⟨_, hsession⟩
  · exact ht
  · rw [hsession]
    exact ht

/-- **Every command** leaves the session going on with the route. -/
theorem execute_goesOn {refusal : Option CommandRefusal} (horderly : t.Orderly)
    (ht : t.session.GoesOn) (h : t.execute c = .ok (t', refusal)) : t'.session.GoesOn := by
  cases c with
  | startRouting p id => exact startRouting_goesOn horderly (Checked.of_tagged h)
  | moveHead p id ortho => exact moveHead_goesOn ht (Checked.of_tagged h)
  | fixRoute p id finish => exact fixRoute_goesOn ht (Checked.of_tagged h)
  | undoLastSegment => exact undoLastSegment_goesOn ht (Checked.of_tagged h)
  | placeVia v target => exact placeVia_goesOn ht (Checked.of_tagged h)
  | switchLayer command => exact switchLayer_goesOn ht (Checked.of_tagged h)
  | flipPosture | toggleRounding =>
      refine refreshHead_goesOn ?_ (Checked.of_tagged h)
      exact ht.of_eq rfl rfl
  | setRouterMode mode =>
      have hset : t.setRouterMode mode = .ok t' := Checked.of_tagged h
      unfold setRouterMode at hset
      split at hset
      · cases hset
        exact ht
      · refine refreshHead_goesOn ?_ hset
        exact ht.of_eq rfl rfl
  | setCustomTrackWidth width => exact redesigns_goesOn (.trackWidth width) ht h
  | setCustomViaSize diameter drill => exact redesigns_goesOn (.viaSize diameter drill) ht h
  | setDiffPair width gap viaGap => exact redesigns_goesOn (.diffPair width gap viaGap) ht h
  | useNetClassSizes => exact redesigns_goesOn .netClasses ht h
  | selectLayerPair pair =>
      cases h
      exact selectLayerPair_goesOn ht pair
  | startDrag ids anchor mode => exact .of_none (startDrag_route? horderly (Checked.of_tagged h))
  | startFootprintDrag id anchor mode =>
      exact .of_none (startFootprintDrag_route? horderly (Checked.of_tagged h))
  | moveDrag p =>
      rcases moveDrag_route? (Checked.of_tagged h) with ⟨hnone, _⟩ | rfl
      · exact .of_none hnone
      · exact ht.of_eq rfl rfl
  | fixDrag =>
      rcases fixDrag_route? (Checked.of_tagged h) with hnone | rfl
      · exact .of_none hnone
      · exact ht
  | cancelOperation => exact .of_none (cancelOperation_route? horderly (Checked.of_tagged h))
  | breakTrack p => exact goesOn_of_idle ht (breakTrack_session (Checked.of_tagged h))
  | undo =>
      have hundo := t.undo_session
      rw [Checked.pure_eq_ok.mp h] at hundo
      exact goesOn_of_idle ht hundo
  | redo =>
      have hredo := t.redo_session
      rw [Checked.pure_eq_ok.mp h] at hredo
      exact goesOn_of_idle ht hredo
  | requestViaTarget | trackCursor | resetSession | clearWorld | syncWorld =>
      cases h
      exact ht.of_eq rfl rfl

/-- **In every reachable state** the tool is at rest and its session goes on with the route. -/
theorem Reaches.goesOn {board : Board} {world : World} {options : Options} {rules : RuleSet}
    {search : TreeSearch} {confirms : Bool}
    (h : (new board world options rules search confirms).Reaches t) :
    t.Orderly ∧ t.session.GoesOn := by
  refine h.invariant (I := fun t => t.Orderly ∧ t.session.GoesOn) (fun t o ht => ?_)
    (fun t k t' ht hturn => ?_)
    ⟨orderly_new board world options rules search confirms, .of_none rfl⟩
  · exact ⟨ht.1.prompted o, ht.2⟩
  · obtain ⟨refusal, hexecute⟩ := turn_eq_ok.mp hturn
    exact ⟨(turn_advances ht.1 hturn).orderly, execute_goesOn (ht.1.ready k) ht.2 hexecute⟩

end Tool

/-- Across from a layer lies another one. -/
theorem LayerPair.paired_ne {p : LayerPair} {l m : LayerId} (hproper : p.isDegenerate = false)
    (h : p.paired l = some m) : m ≠ l := by
  have hapart : p.top ≠ p.bottom := by simpa [isDegenerate] using hproper
  unfold paired at h
  split at h
  · next htop =>
      cases h
      rw [htop]
      exact hapart.symm
  · split at h
    · next hbottom =>
        cases h
        rw [hbottom]
        exact hapart
    · cases h

/-- The via leads to another layer. -/
def PendingVia.Crosses (p : PendingVia) : Prop := p.toLayer ≠ p.fromLayer

/-- **A crossing route.**  The via at its head leads to another layer, and so does every via
that comes back there when a step is taken back. -/
structure RouteOp.Crosses (op : RouteOp) : Prop where
  via : ∀ p, op.via = some p → p.Crosses
  steps : ∀ s ∈ op.steps, ∀ p, s.via = some p → p.Crosses

namespace RouteOp

variable {op op' : RouteOp}

/-- A new route crosses: it has no via yet. -/
theorem crosses_new (net : NetCode) (start : Point) (id : Option ItemId) (layer : LayerId)
    (sizes : Sizes) : (new net start id layer sizes).Crosses := by
  refine ⟨fun p hp => ?_, fun s hs => ?_⟩
  · cases hp
  · cases hs

/-- Whether a route crosses depends on its way alone. -/
theorem Crosses.of_sameWay (h : op.Crosses) (hsame : op.SameWay op') : op'.Crosses := by
  refine ⟨fun p hp => ?_, hsame.steps ▸ h.steps⟩
  have hplaces := hsame.via
  rw [hp, Option.map_some] at hplaces
  obtain ⟨q, hq, hplace⟩ := Option.map_eq_some_iff.mp hplaces.symm
  obtain ⟨_, hfrom, hto⟩ : q.via.span = p.via.span ∧ q.fromLayer = p.fromLayer ∧
      q.toLayer = p.toLayer := by simpa [PendingVia.place] using hplace
  have hcrosses : q.toLayer ≠ q.fromLayer := h.via q hq
  rw [hfrom, hto] at hcrosses
  exact hcrosses

/-- A route without a via at its head crosses when its steps do. -/
theorem Crosses.of_steps (h : op.Crosses) (hnone : op'.via = none) (hsteps : op'.steps = op.steps) :
    op'.Crosses := by
  refine ⟨fun p hp => ?_, hsteps ▸ h.steps⟩
  rw [hnone] at hp
  cases hp

/-- A crossing route without its via crosses. -/
theorem Crosses.withdrawVia (h : op.Crosses) : op.withdrawVia.Crosses :=
  h.of_steps op.via_withdrawVia op.steps_withdrawVia

/-- Taking a step back brings a via back that crosses. -/
theorem Crosses.undoStep (h : op.Crosses) (hundo : op.undoStep = some op') : op'.Crosses := by
  obtain ⟨s, hs, rfl⟩ := Option.map_eq_some_iff.mp hundo
  exact ⟨h.steps s (List.mem_of_getLast? hs),
    fun s' hs' => h.steps s' (List.dropLast_subset _ hs')⟩

/-- Fixing a head that crosses leaves a route that crosses. -/
theorem Crosses.pushStep (h : op.Crosses) (g : RouteGeometry) : (op.pushStep g).Crosses := by
  refine ⟨fun p hp => ?_, fun s hs p hp => ?_⟩
  · cases hp
  · rcases List.mem_append.mp hs with hold | hnew
    · exact h.steps s hold p hp
    · rw [List.mem_singleton.mp hnew] at hp
      exact h.via p hp

/-- A legal via leads to another layer. -/
theorem Crosses.hangVia {b : Board} {target : Option LayerId} {viaType : ViaType}
    {v : ResolvedVia} (h : op.Crosses) (rules : RuleSet)
    (hlegal : Via.resolve ⟨op.layer, target, viaType⟩ (ViaEnvironment.ofBoard b) = .ok v) :
    (op.hangVia b rules v).Crosses := by
  obtain ⟨hjoins, hproper, _⟩ := Via.resolve_joins hlegal
  obtain ⟨across, hacross, _⟩ := LayerPair.paired_isSome hjoins
  refine ⟨fun p hp => ?_, h.steps⟩
  cases hp
  show Option.getD ((v.applyTo _).pairedLayer op.layer) _ ≠ op.layer
  rw [v.pairedLayer_applyTo, hacross]
  exact LayerPair.paired_ne hproper hacross

end RouteOp

namespace Tool

variable {t t' : Tool} {c : Command} {n : UInt8}

/-- Every way that a command can change a crossing route to crosses. -/
theorem Rerouting.crosses {op way : RouteOp} (hchange : t.Rerouting op c way) (h : op.Crosses) :
    way.Crosses := by
  cases hchange with
  | kept => exact h
  | extended => exact (h.of_sameWay (op.sameWay_aim ..)).pushStep _
  | undone hundo => exact h.undoStep hundo
  | withdrawn => exact h.withdrawVia
  | hung _ hlegal => exact h.hangVia t.rules hlegal
  | jumped => exact h.of_steps op.via_withdrawVia op.steps_withdrawVia
  | hungBelow hlegal => exact h.withdrawVia.hangVia t.rules hlegal

/-- **The invariant.**  All boards have one stackup and enable only layers of it, and the
running route lies there and crosses. -/
structure KeepsPlace (s : Stackup) (t : Tool) : Prop extends t.Traces where
  boards : ∀ b ∈ t.boards, b.Layered s
  proper : ∀ op, t.session.route? = some op → op.ProperIn s
  crosses : ∀ op, t.session.route? = some op → op.Crosses

/-- Every turn keeps the invariant. -/
theorem turn_keepsPlace {k : Turn} (ht : t.KeepsPlace (Stackup.ofCount n))
    (h : t.turn k = .ok t') : t'.KeepsPlace (Stackup.ofCount n) := by
  have htraces := turn_traces ht.toTraces h
  obtain ⟨refusal, h⟩ := turn_eq_ok.mp h
  have hnow : t.board.Layered (Stackup.ofCount n) := ht.boards _ t.board_mem_boards
  have hboards : ∀ b ∈ t'.boards, b.Layered (Stackup.ofCount n) := by
    refine (execute_changes (ht.orderly.ready k) h).boards.all_boards ht.boards
      (fun design hboard _ => ?_) fun changes report _ hcommit => ?_
    · rw [hboard]
      exact ⟨hnow.stackup, hnow.enabled⟩
    · refine ⟨(Board.commit_takes hcommit).frame.stackup.trans hnow.stackup, ?_⟩
      rw [Board.commit_enabledLayers hcommit]
      exact hnow.enabled
  have hboard : t'.board.stackup = Stackup.ofCount n := (hboards _ t'.board_mem_boards).stackup
  refine ⟨htraces, hboards, fun op' hop' => ?_, fun op' hop' => ?_⟩
  · cases execute_reroutes (ht.orderly.ready k) hop' h with
    | began _ _ hopens hsame =>
        have hcopper := hopens.copper
        rw [← hsame, hboard] at hcopper
        rw [hopens.fresh] at hcopper ⊢
        exact RouteOp.properIn_new hcopper _ _ _ _
    | changed hop hchange hsame _ =>
        -- a head goes on directly only to an enabled layer
        refine RouteOp.ProperIn.of_sameWay ?_ hsame
        refine hchange.properIn_of_jumps hnow.stackup (fun _ layer hresolve _ => ?_)
          (ht.proper _ hop)
        exact hnow.enabled layer (LayerCommand.resolve_eq_some hresolve).2
  · cases execute_reroutes (ht.orderly.ready k) hop' h with
    | began _ _ hopens _ =>
        rw [hopens.fresh]
        exact RouteOp.crosses_new ..
    | changed hop hchange hsame _ => exact (hchange.crosses (ht.crosses _ hop)).of_sameWay hsame

/-- The via at the head of a route joins two layers of the stackup, the one of the head and
another one, and its hole reaches both. -/
structure JoinsLayers (s : Stackup) (op : RouteOp) (p : PendingVia) : Prop where
  source : p.fromLayer = op.layer
  apart : p.toLayer ≠ p.fromLayer
  copper : s.contains p.fromLayer = true ∧ s.contains p.toLayer = true
  reached : (LayerRange.ofPair p.via.span).contains p.fromLayer = true ∧
    (LayerRange.ofPair p.via.span).contains p.toLayer = true

/-- **The layers agree**: the one of the head, those of the via there, and the active one. -/
structure LayersAgree (t : Tool) (op : RouteOp) : Prop where
  head : t.board.stackup.contains op.layer = true
  via : ∀ p, op.via = some p → JoinsLayers t.board.stackup op p
  active : t.session.activeLayer =
    match op.via with
    | some p => p.toLayer
    | none => op.layer

/-- Under the invariant the layers agree when the session goes on. -/
theorem KeepsPlace.layersAgree {op : RouteOp} (ht : t.KeepsPlace (Stackup.ofCount n))
    (hgoesOn : t.session.GoesOn) (hop : t.session.route? = some op) : t.LayersAgree op := by
  have hboard : t.board.stackup = Stackup.ofCount n := (ht.boards _ t.board_mem_boards).stackup
  have hproper := ht.proper op hop
  rw [← hboard] at hproper
  refine ⟨hproper.layer, fun p hp => ?_, hgoesOn op hop⟩
  obtain ⟨hfrom, hhere, hthere⟩ := (ht.traced op hop).via p hp
  have hlies := hproper.via p hp
  exact ⟨hfrom, (ht.crosses op hop).via p hp, ⟨hlies.source, hlies.target⟩, hfrom.symm ▸ hhere,
    hthere⟩

/-- **The layers agree in every reachable state** of a tool on a board of 1 to 32 layers,
whatever its engine works on. -/
theorem reached_layersAgree {board : Board} {world : World} {options : Options}
    {rules : RuleSet} {search : TreeSearch} {confirms : Bool} {n : UInt8}
    (hboard : board.Layered (Stackup.ofCount n))
    (hreached : (new board world options rules search confirms).Reaches t) {op : RouteOp}
    (hop : t.session.route? = some op) : t.LayersAgree op := by
  have hnew : (new board world options rules search confirms).KeepsPlace (Stackup.ofCount n) := by
    refine ⟨traces_new board world options rules search confirms, fun b hb => ?_, fun op hop => ?_,
      fun op hop => ?_⟩
    · rw [eq_of_mem_boards_new hb]
      exact hboard
    · cases hop
    · cases hop
  have ht := hreached.invariant (I := fun t => t.KeepsPlace (Stackup.ofCount n))
    (fun t o ht => ⟨⟨ht.orderly.prompted o, ht.traced⟩, ht.boards, ht.proper, ht.crosses⟩)
    (fun _ _ _ => turn_keepsPlace) hnew
  exact ht.layersAgree hreached.goesOn.2 hop

/-- A step with a via is taken back: the via hangs at the head again, and the session goes on
on the layer behind it. -/
theorem reached_layersAgree_stepBack :
    Board.standard.Layered (Stackup.ofCount 2) ∧ ∃ t op p,
      (launch Board.standard Options.standard [] true).serve (viaStep ++ [backspace]) = .ok t ∧
        t.session.route? = some op ∧ op.via = some p ∧ p.toLayer = ⟨1⟩ ∧ t.LayersAgree op := by
  have hboard : Board.standard.Layered (Stackup.ofCount 2) :=
    Board.layered_ofFile (f := BoardFile.standard) rfl rfl
  obtain ⟨t, op, p, hserve, hop, hvia, hto⟩ : ∃ t op p,
      (launch Board.standard Options.standard [] true).serve (viaStep ++ [backspace]) = .ok t ∧
        t.session.route? = some op ∧ op.via = some p ∧ p.toLayer = ⟨1⟩ :=
    ⟨_, _, _, by rfl, by rfl, by rfl, by rfl⟩
  exact ⟨hboard, t, op, p, hserve, hop, hvia, hto,
    reached_layersAgree hboard (Reaches.start.serve hserve) hop⟩

end Tool

end CopperRoute
