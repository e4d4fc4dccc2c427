import CopperRoute.Proofs.WithdrawnVias

/-!
# What a size command leaves alone

A size command changes design settings, and everything that depends on them follows: the engine gets
the new board, the sizes of a running route are settled anew, those that a via at the head remembers
as well, and the head is asked for again.  Settling sizes throws the layer pairs away and writes the
via type again, so both are put back (`Sizing.layerPairs_renew`, `Sizing.viaType_renew`).

So the route stays what it is but for its dimensions and its head (`RouteOp.Resized`), and nothing
else of the tool changes but the settings (`Tool.Resized`).  The host is told once.  A command that
is rejected changes nothing at all, and the host is told why (`Tool.reached_resized`).
-/

namespace CopperRoute

/-- The layer pairs are put back when sizes are settled anew. -/
theorem Sizing.layerPairs_renew {s : Sizes} (h : s.OnePair) (b : Board) (rules : RuleSet)
    (key : SizingKey) (layer : LayerId) : (renew b rules key layer s).layerPairs = s.layerPairs := by
  obtain ⟨pair, hpair⟩ := h
  rw [renew_of_eq b rules key layer hpair, hpair]
  rfl

/-- **The same via** at another size: it leads where it led, and brings back the layer pairs and the
via type that it did. -/
structure PendingVia.Resized (p p' : PendingVia) : Prop where
  viaType : p'.via.viaType = p.via.viaType
  span : p'.via.span = p.via.span
  fromLayer : p'.fromLayer = p.fromLayer
  toLayer : p'.toLayer = p.toLayer
  pairsBefore : p'.sizesBefore.layerPairs = p.sizesBefore.layerPairs
  viaTypeBefore : p'.sizesBefore.viaType = p.sizesBefore.viaType

/-- **The same route** with other dimensions and another head. -/
structure RouteOp.Resized (op op' : RouteOp) : Prop where
  net : op'.net = op.net
  start : op'.start = op.start
  startItem : op'.startItem = op.startItem
  layer : op'.layer = op.layer
  stop : op'.stop = op.stop
  stopItem : op'.stopItem = op.stopItem
  ortho : op'.ortho = op.ortho
  steps : op'.steps = op.steps
  layerPairs : op'.sizes.layerPairs = op.sizes.layerPairs
  viaType : op'.sizes.viaType = op.sizes.viaType
  bare : op.via = none → op'.via = none
  hung : ∀ p, op.via = some p → ∃ p', op'.via = some p' ∧ p.Resized p'

theorem RouteOp.resized_renewSizes {op : RouteOp} (hsizes : op.sizes.OnePair)
    (hvia : ∀ p, op.via = some p → p.sizesBefore.OnePair) (b : Board) (rules : RuleSet)
    (head : Option RouteGeometry) : op.Resized { op.renewSizes b rules with head := head } where
  net := rfl
  start := rfl
  startItem := rfl
  layer := rfl
  stop := rfl
  stopItem := rfl
  ortho := rfl
  steps := rfl
  layerPairs := Sizing.layerPairs_renew hsizes b rules _ _
  viaType := Sizing.viaType_renew b rules _ _ _
  bare := fun hbare => by simp [renewSizes, hbare]
  hung := fun p hp => by
    refine ⟨_, congrArg (Option.map _) hp, rfl, rfl, rfl, rfl, ?_, ?_⟩
    · exact Sizing.layerPairs_renew (hvia p hp) b rules _ _
    · exact Sizing.viaType_renew b rules _ _ _

namespace Session

/-- Changing the route changes nothing else of the session. -/
theorem mapRoute_eq (s : Session) (f : RouteOp → RouteOp) :
    s.mapRoute f = { s with operation := (s.mapRoute f).operation } := by
  unfold mapRoute
  split <;> rfl

theorem mapRoute_mapRoute (s : Session) (f g : RouteOp → RouteOp) :
    (s.mapRoute f).mapRoute g = s.mapRoute fun op => g (f op) := by
  cases hop : s.operation <;> simp [mapRoute, hop]

end Session

theorem Command.Redesigns.netClasses_eq {c : Command} {change : Design → Design}
    (h : c.Redesigns change) (d : Design) : (change d).netClasses = d.netClasses := by
  cases h <;> rfl

namespace Tool

variable {t t' : Tool} {c : Command} {change : Design → Design} {refusal : Option CommandRefusal}

/-- **What an accepted size command does** to a tool: the design settings of the board change, the
engine gets this board, the host is told of new sizes, and a running route gets them. -/
structure Resized (t : Tool) (c : Command) (change : Design → Design) (t' : Tool) : Prop where
  /-- The host is told of new sizes, once and of nothing else. -/
  told : t'.host = t.host.notify .sizesChanged
  /-- Of the board, nothing but the design settings changes. -/
  board : t'.board = { t.board with design := change t.board.design }
  netClasses : t'.board.design.netClasses = t.board.design.netClasses
  world : t'.world = some t'.board
  history : t'.history = t.history
  log : t'.log = t.log.record c
  rules : t'.rules = t.rules
  options : t'.options = t.options
  bindings : t'.bindings = t.bindings
  cancelRequested : t'.cancelRequested = t.cancelRequested
  /-- Of the session, nothing but the running operation changes. -/
  session : t'.session = { t.session with operation := t'.session.operation }
  drag : t'.session.drag? = t.session.drag?
  idle : t.session.route? = none → t'.session.route? = none
  route : ∀ op, t.session.route? = some op → ∃ op', t'.session.route? = some op' ∧ op.Resized op'

/-- When the head is asked for again, the running route gets its new sizes and perhaps another
head. -/
theorem redesigned_refreshHead (h : (t.redesigned change).refreshHead = .ok t') :
    ∃ f : RouteOp → RouteOp, t' = { t.redesigned change with session := t.session.mapRoute f } ∧
      ∀ op, ∃ head, f op = { op.renewSizes (t.board.redesign change) t.rules with head := head } := by
  rcases refreshHead_eq_ok h with rfl | ⟨g, rfl⟩
  · exact ⟨RouteOp.renewSizes (t.board.redesign change) t.rules, rfl, fun op => ⟨op.head, rfl⟩⟩
  · refine ⟨fun op => { op.renewSizes (t.board.redesign change) t.rules with head := some g }, ?_,
      fun op => ⟨some g, rfl⟩⟩
    rw [← t.session.mapRoute_mapRoute _ fun op => { op with head := some g }]
    rfl

/-- **A size command that is accepted.** -/
theorem resized_of_changeDesign (ht : t.OnePair) (hc : c.Redesigns change)
    (h : Tool.changeDesign { t with log := t.log.record c } change = .ok t') :
    t.Resized c change t' := by
  rw [changeDesign_eq] at h
  obtain ⟨f, rfl, hf⟩ := redesigned_refreshHead h
  have hroute := t.session.route?_mapRoute f
  refine ⟨rfl, rfl, hc.netClasses_eq _, rfl, rfl, rfl, rfl, rfl, rfl, rfl, t.session.mapRoute_eq f,
    t.session.drag?_mapRoute f, fun hnone => ?_, fun op hop => ⟨f op, ?_, ?_⟩⟩
  · exact hroute.trans (congrArg (Option.map f) hnone)
  · exact hroute.trans (congrArg (Option.map f) hop)
  · obtain ⟨head, hhead⟩ := hf op
    rw [hhead]
    exact RouteOp.resized_renewSizes (ht.sizes op hop) (fun p => ht.vias.head op p hop) _ _ head

/-- **Every size command** in a reachable state is rejected for its values, and then changes nothing
but the log and tells the host of one error; or it is accepted, and then changes nothing but the
settings and what follows from them. -/
theorem reached_resized {board : Board} {world : World} {options : Options} {rules : RuleSet}
    {search : TreeSearch} {confirms : Bool}
    (hreached : (new board world options rules search confirms).Reaches t)
    (hc : c.Redesigns change) :
    (c.resizes = false →
      ∃ e, t.handle c = .ok (Tool.report { t with log := t.log.record c } e, none)) ∧
    (c.resizes = true → ∀ t' refusal, t.handle c = .ok (t', refusal) →
      refusal = none ∧ t.Resized c change t') := by
  rcases execute_redesigns hc with ⟨hrejected, e, hreports⟩ | ⟨haccepted, hchanges⟩
  · refine ⟨fun _ => ⟨e, hreports _⟩, fun haccepted => ?_⟩
    cases hrejected.symm.trans haccepted
  · refine ⟨fun hrejected => ?_, fun _ t' refusal h => ?_⟩
    · cases hrejected.symm.trans haccepted
    · rw [handle, hchanges] at h
      obtain ⟨u, hchanged, h⟩ := Checked.bind_eq_ok.mp h
      cases h
      exact ⟨rfl, resized_of_changeDesign hreached.onePair hc hchanged⟩

/-- A width that is set while a via hangs at the head, and one that is rejected there. -/
theorem reached_resized_hungVia :
    ∃ t op p t' op' p' e, (launch Board.standard Options.standard [] true).serve
        (viaStep.take 2) = .ok t ∧ t.session.route? = some op ∧ op.via = some p ∧
      t.handle (.setCustomTrackWidth 300000) = .ok (t', none) ∧
      t'.host = t.host.notify .sizesChanged ∧ t'.history = t.history ∧
      t'.session.route? = some op' ∧ op'.via = some p' ∧ p.Resized p' ∧
      op'.sizes.trackWidth = 300000 ∧ op.sizes.trackWidth ≠ 300000 ∧
      op'.sizes.layerPairs = op.sizes.layerPairs ∧
      t.handle (.setCustomTrackWidth 0) =
        .ok (Tool.report { t with log := t.log.record (.setCustomTrackWidth 0) } e, none) := by
  obtain ⟨t, op, p, t', op', hserve, hop, hp, haccepted, hop', hwidth, hother⟩ :
      ∃ t op p t' op', (launch Board.standard Options.standard [] true).serve
          (viaStep.take 2) = .ok t ∧ t.session.route? = some op ∧ op.via = some p ∧
        t.handle (.setCustomTrackWidth 300000) = .ok (t', none) ∧ t'.session.route? = some op' ∧
        op'.sizes.trackWidth = 300000 ∧ op.sizes.trackWidth ≠ 300000 :=
    ⟨_, _, _, _, _, by rfl, by rfl, by rfl, by rfl, by rfl, by rfl, by decide⟩
  have hreached := Reaches.start.serve hserve
  obtain ⟨e, hrejected⟩ := (reached_resized hreached (.trackWidth 0)).1 rfl
  obtain ⟨_, hresized⟩ := (reached_resized hreached (.trackWidth 300000)).2 rfl t' none haccepted
  obtain ⟨op'', hop'', hroute⟩ := hresized.route op hop
  cases hop'.symm.trans hop''
  obtain ⟨p', hp', hvia⟩ := hroute.hung p hp
  exact ⟨t, op, p, t', op', p', e, hserve, hop, hp, haccepted, hresized.told, hresized.history,
    hop', hp', hvia, hwidth, hother, hroute.layerPairs, hrejected⟩

end Tool

end CopperRoute
