import CopperRoute.Proofs.FreshHeads
import CopperRoute.Proofs.RouteSizes

/-!
# Taking a via back after other settings

A via at the head remembers the sizes from before it, and taking it back brings those back.
Meanwhile the user may set other sizes or choose another pair of layers.  Such an **edit**
(`Command.Edits`) ought to leave the same behind as if the via had never been there.

So two runs go side by side: one with a via at its head, and one without, its **shadow**
(`Tool.Shadows`).  The edits keep them apart by no more than what the via brought along, and
a size command renews what the via remembers just as it renews the sizes of the shadow.  But a
pair that is chosen reaches the shadow only.  When the via is taken back, the runs agree in
everything except the layer pairs of their sizes, and in those exactly when the last pair that
was chosen is the one that the via remembers (`Tool.reached_withdrawn`).

* Every route has one pair of layers in its sizes, and so does what its vias remember
  (`Tool.OnePair`).
* Without its via, a head asks for less: an engine that answers with the via answers the shadow
  (`Tool.Shadows.answered`).  So the shadow can follow every edit, and the via can be taken back
  behind the last one.
-/

namespace CopperRoute

namespace Sizes

/-- The sizes with this pair of layers and no other. -/
def withPair (s : Sizes) (pair : LayerPair) : Sizes := { s with layerPairs := [pair] }

/-- **One pair** of layers. -/
def OnePair (s : Sizes) : Prop := ∃ pair, s.layerPairs = [pair]

/-- Sizes stay the same exactly when they are given the pair that they have. -/
theorem withPair_eq_iff {s : Sizes} {now : LayerPair} (h : s.layerPairs = [now])
    (old : LayerPair) : s.withPair old = s ↔ now = old := by
  constructor
  · intro hsame
    have hpairs : [old] = [now] := (congrArg layerPairs hsame).trans h
    exact (List.singleton_inj.mp hpairs).symm
  · intro hpair
    rw [withPair, ← hpair, ← h]

/-- Sizes without a pair get their only one. -/
theorem addLayerPair_of_nil {s : Sizes} (h : s.layerPairs = []) (pair : LayerPair) :
    s.addLayerPair pair = s.withPair pair := by
  simp [addLayerPair, withPair, h]

end Sizes

namespace Sizing

variable (b : Board) (rules : RuleSet) (key : SizingKey) (layer : LayerId)

/-- Settling sizes anew keeps their one pair. -/
theorem renew_of_eq {s : Sizes} {pair : LayerPair} (h : s.layerPairs = [pair]) :
    renew b rules key layer s =
      (resolve b (.forBoard b key s.viaType pair layer) s rules).withPair pair := by
  simp only [renew, h, List.head?_cons, Option.getD_some, List.foldl_cons, List.foldl_nil]
  exact Sizes.addLayerPair_of_nil (layerPairs_resolve b rules _ s) pair

/-- **The pair decides nothing else**: no rule asks between which layers a via lies. -/
theorem renew_withPair {s : Sizes} {now : LayerPair} (h : s.layerPairs = [now])
    (old : LayerPair) :
    renew b rules key layer (s.withPair old) = (renew b rules key layer s).withPair old := by
  have hold : (s.withPair old).layerPairs = [old] := rfl
  rw [renew_of_eq b rules key layer h, renew_of_eq b rules key layer hold]
  rfl

/-- Renewed sizes have one pair if the old ones had. -/
theorem onePair_renew {s : Sizes} (h : s.OnePair) : (renew b rules key layer s).OnePair := by
  obtain ⟨pair, hpair⟩ := h
  rw [renew_of_eq b rules key layer hpair]
  exact ⟨pair, rfl⟩

end Sizing

/-- A via that is accepted leaves one pair. -/
theorem ResolvedVia.onePair_applyTo (v : ResolvedVia) (s : Sizes) : (v.applyTo s).OnePair := by
  rw [applyTo, Sizes.addLayerPair_of_nil rfl]
  exact ⟨v.pair, rfl⟩

namespace RouteOp

/-- A choice of layers for vias leaves one pair. -/
theorem onePair_usePair {op : RouteOp} (h : op.sizes.OnePair) (pair : LayerPair) :
    (op.usePair pair).sizes.OnePair := by
  unfold usePair
  split
  · exact h
  · rw [Sizes.addLayerPair_of_nil rfl]
    exact ⟨pair, rfl⟩

/-- What is left when the via is taken back is what it remembers. -/
theorem onePair_withdrawVia {op : RouteOp} (h : op.sizes.OnePair)
    (hvia : ∀ p, op.via = some p → p.sizesBefore.OnePair) : op.withdrawVia.sizes.OnePair := by
  cases hp : op.via with
  | none =>
      rw [withdrawVia_of_none hp]
      exact h
  | some p =>
      rw [sizes_withdrawVia hp]
      exact hvia p hp

end RouteOp

/-- Where the copper of a head conflicts is known for each part of it. -/
theorem Board.allConflicts_left {b : Board} {copper more : List Draft}
    {exempt hits : List ItemId} (h : b.allConflicts (copper ++ more) exempt = .ok hits) :
    ∃ fewer, b.allConflicts copper exempt = .ok fewer := by
  obtain ⟨all, hall, _⟩ := Checked.bind_eq_ok.mp h
  rw [List.mapM_append] at hall
  obtain ⟨first, hfirst, _⟩ := Checked.bind_eq_ok.mp hall
  exact ⟨first.flatten.eraseDups, Checked.bind_eq_ok.mpr ⟨first, hfirst, rfl⟩⟩

/-- **An engine that answers for a head with a via** answers for the head alone. -/
theorem World.route_of_via {w : World} {r : RouteRequest} {v : HeadVia}
    {answer : Except EngineFailure RouteGeometry} (hbare : r.via = none)
    (h : w.route { r with via := some v } = .ok answer) :
    ∃ answer', w.route r = .ok answer' := by
  cases w with
  | none => exact ⟨.error .noWorld, rfl⟩
  | some b =>
      obtain ⟨g, hg, _⟩ := Checked.bind_eq_ok.mp h
      obtain ⟨points, hpoints, hg⟩ := Checked.bind_eq_ok.mp hg
      obtain ⟨hits, hhits, _⟩ := Checked.bind_eq_ok.mp hg
      obtain ⟨fewer, hfewer⟩ := Board.allConflicts_left hhits
      -- the tracks are the same, and without a via they are all
      have hbareVia (stop : Point) : Board.headVia r stop = none := by
        rw [Board.headVia, hbare, Option.map_none]
      refine ⟨_, Checked.bind_eq_ok.mpr ⟨_, Checked.bind_eq_ok.mpr ⟨points, hpoints,
        Checked.bind_eq_ok.mpr ⟨fewer, ?_, rfl⟩⟩, rfl⟩⟩
      rw [hbareVia, Option.toList_none, List.append_nil]
      exact hfewer

namespace Tool

variable {t t' u u' w : Tool} {c : Command} {op : RouteOp}

/-- **Every route has one pair of layers** in its sizes, and its vias remember one. -/
structure OnePair (t : Tool) : Prop where
  orderly : t.Orderly
  sizes : ∀ op, t.session.route? = some op → op.sizes.OnePair
  vias : t.ViasSatisfy (fun _ _ _ => ()) fun _ p => p.sizesBefore.OnePair

/-- However a command alters the route, its sizes have one pair, and so have those that its via
remembers. -/
theorem OnePair.altered {way : RouteOp} {b : Board} (ht : t.OnePair)
    (hop : t.session.route? = some op) (halters : t.Alters op c way b) :
    way.sizes.OnePair ∧ ∀ p, way.via = some p → p.sizesBefore.OnePair := by
  have hsizes := ht.sizes op hop
  have hvia (p : PendingVia) (hp : op.via = some p) := ht.vias.head op p hop hp
  have hwithdrawn := RouteOp.onePair_withdrawVia hsizes hvia
  have hbare (p : PendingVia) (hp : op.withdrawVia.via = some p) : p.sizesBefore.OnePair := by
    cases op.via_withdrawVia.symm.trans hp
  cases halters with
  | paired =>
      rw [op.via_usePair]
      exact ⟨RouteOp.onePair_usePair hsizes _, hvia⟩
  | renewed =>
      refine ⟨Sizing.onePair_renew _ _ _ _ hsizes, fun p hp => ?_⟩
      obtain ⟨old, hold, rfl⟩ := Option.map_eq_some_iff.mp hp
      exact Sizing.onePair_renew _ _ _ _ (hvia old hold)
  | rerouted hchange =>
      cases hchange with
      | kept => exact ⟨hsizes, hvia⟩
      | extended => exact ⟨hsizes, fun p hp => by cases hp⟩
      | undone hundo =>
          obtain ⟨s, hlast, hback, hkept, _, _⟩ := RouteOp.undoStep_eq_some hundo
          rw [hkept, hback]
          exact ⟨hsizes, fun p hp => ht.vias.steps op s p hop (List.mem_of_getLast? hlast) hp⟩
      | withdrawn => exact ⟨hwithdrawn, hbare⟩
      | hung =>
          refine ⟨ResolvedVia.onePair_applyTo _ _, fun p hp => ?_⟩
          cases hp
          exact hsizes
      | jumped => exact ⟨hwithdrawn, hbare⟩
      | hungBelow =>
          refine ⟨ResolvedVia.onePair_applyTo _ _, fun p hp => ?_⟩
          cases hp
          exact hwithdrawn

/-- Every turn keeps the one pair. -/
theorem turn_onePair {k : Turn} (ht : t.OnePair) (h : t.turn k = .ok t') : t'.OnePair := by
  -- nothing is measured, so nothing can change behind a via
  have hsteps := turn_stepVias ht.orderly ht.vias
    (fun ⟨_, _, _, _, _, _, _, _, _, _, _, hchanged⟩ => hchanged rfl) h
  have horderly := (turn_advances ht.orderly h).orderly
  have hready : (t.ready k).OnePair := ⟨ht.orderly.ready k, ht.sizes, ht.vias.head, ht.vias.steps⟩
  obtain ⟨refusal, h⟩ := turn_eq_ok.mp h
  have hroute (op' : RouteOp) (hop' : t'.session.route? = some op') :
      op'.sizes.OnePair ∧ ∀ p, op'.via = some p → p.sizesBefore.OnePair := by
    cases execute_derives hready.orderly hop' h with
    | @began _ _ u _ _ hopens _ =>
        rw [hopens.fresh]
        refine ⟨⟨u.board.defaultPair, ?_⟩, fun p hp => by cases hp⟩
        exact congrArg Sizes.layerPairs
          (Sizes.addLayerPair_of_nil (Sizing.layerPairs_resolve _ _ _ _) _)
    | altered hop halters hsame _ =>
        rw [hsame.sizes, hsame.via]
        exact hready.altered hop halters
  exact ⟨horderly, fun op' hop' => (hroute op' hop').1,
    fun op' p hop' => (hroute op' hop').2 p, hsteps⟩

/-- **In every reachable state** the sizes have one pair. -/
theorem Reaches.onePair {board : Board} {world : World} {options : Options} {rules : RuleSet}
    {search : TreeSearch} {confirms : Bool}
    (h : (new board world options rules search confirms).Reaches t) : t.OnePair := by
  refine h.invariant (I := OnePair) (fun t o ht => ?_) (fun _ _ _ => turn_onePair) ?_
  · exact ⟨ht.orderly.prompted o, ht.sizes, ht.vias.head, ht.vias.steps⟩
  · refine ⟨orderly_new board world options rules search confirms, fun op hop => ?_,
      fun op p hop => ?_, fun op s p hop => ?_⟩
    · cases hop
    · cases hop
    · cases hop

end Tool

/-- The route with a via at its head, other sizes in force and another head drawn. -/
def RouteOp.hanging (op : RouteOp) (p : PendingVia) (sizes : Sizes)
    (head : Option RouteGeometry) : RouteOp :=
  { op with via := some p, sizes := sizes, head := head }

/-- **What a via brought along.**  It hangs at the head of a route that has none and has the
pair `now` in its sizes.  It remembers the sizes of that route, but with the pair `old`, and
the tracks in force are those of that route, too. -/
structure RouteOp.Bears (op : RouteOp) (old now : LayerPair) (p : PendingVia) (sizes : Sizes) :
    Prop where
  bare : op.via = none
  pair : op.sizes.layerPairs = [now]
  source : p.fromLayer = op.layer
  remembered : p.sizesBefore = op.sizes.withPair old
  tracks : sizes.tracks = op.sizes.tracks

namespace RouteOp.Bears

variable {op : RouteOp} {old now : LayerPair} {p : PendingVia} {sizes : Sizes}

/-- The question for the head with the via differs in the via. -/
theorem request_hanging (h : op.Bears old now p sizes) (head : Option RouteGeometry)
    (mode : RouterMode) (posture : Posture) (rounded : Bool) :
    (op.request mode posture rounded).via = none ∧
      (op.hanging p sizes head).request mode posture rounded =
        { op.request mode posture rounded with via := some p.via } := by
  have hwidth : sizes.trackWidth = op.sizes.trackWidth := congrArg TrackSizes.width h.tracks
  refine ⟨?_, ?_⟩
  · simp only [request, h.bare, Option.map_none]
  · simp only [request, hanging, hwidth, Option.map_some]

/-- The question without the via is that of the other route. -/
theorem request_withdrawVia (h : op.Bears old now p sizes) (head : Option RouteGeometry)
    (mode : RouterMode) (posture : Posture) (rounded : Bool) :
    (op.hanging p sizes head).withdrawVia.request mode posture rounded =
      op.request mode posture rounded := by
  simp only [request, withdrawVia, hanging, h.bare, h.source, h.remembered, Sizes.withPair,
    Option.map_none]

/-- Another head of the other route does not matter. -/
theorem drawn (h : op.Bears old now p sizes) (head : Option RouteGeometry) :
    Bears { op with head := head } old now p sizes :=
  ⟨h.bare, h.pair, h.source, h.remembered, h.tracks⟩

/-- **New sizes** for both routes differ in what the via brought along. -/
theorem renewSizes (h : op.Bears old now p sizes) (head : Option RouteGeometry) (b : Board)
    (rules : RuleSet) :
    ∃ p' sizes', (op.hanging p sizes head).renewSizes b rules =
        (op.renewSizes b rules).hanging p' sizes' head ∧
      (op.renewSizes b rules).Bears old now p' sizes' := by
  refine ⟨_, _, rfl, ?_, ?_, h.source, ?_, ?_⟩
  · simp only [RouteOp.renewSizes, h.bare, Option.map_none]
  · exact congrArg Sizes.layerPairs (Sizing.renew_of_eq b rules (op.sizingKey b) op.layer h.pair)
  · show Sizing.renew b rules (op.sizingKey b) p.fromLayer p.sizesBefore = _
    rw [h.source, h.remembered, Sizing.renew_withPair b rules _ _ h.pair]
    rfl
  · exact (Sizing.tracks_renew b rules _ _ _).trans (op.tracks_renewSizes b rules).symm

/-- **A pair that is chosen** does not reach the route with the via. -/
theorem usePair (h : op.Bears old now p sizes) (head : Option RouteGeometry) (pair : LayerPair) :
    (op.hanging p sizes head).usePair pair = (op.usePair pair).hanging p sizes head ∧
      (op.usePair pair).Bears old pair p sizes := by
  have hbare : op.usePair pair = { op with sizes := op.sizes.withPair pair } := by
    simp only [RouteOp.usePair, h.bare, Option.isSome_none, Bool.false_eq_true, if_false]
    rw [Sizes.addLayerPair_of_nil rfl]
    rfl
  rw [hbare]
  exact ⟨rfl, h.bare, rfl, h.source, h.remembered, h.tracks⟩

end RouteOp.Bears

namespace Tool

variable {t t' u u' w : Tool} {c : Command} {op : RouteOp} {old now : LayerPair}

/-- **The engine answers** the question for the head. -/
def Answered (t : Tool) : Prop :=
  ∀ op, t.session.route? = some op → ∃ answer, t.world.route (t.asks op) = .ok answer

/-- A head that could be refreshed had an answer. -/
theorem answered_of_refreshed (h : t.refreshHead = .ok t') : t.Answered := by
  intro op hop
  rw [refreshHead_running hop] at h
  obtain ⟨answer, hanswer, _⟩ := Checked.bind_eq_ok.mp h
  exact ⟨answer, hanswer⟩

/-- Where the engine answers the head can be refreshed. -/
theorem Answered.refreshHead (ht : t.Answered) : ∃ t', t.refreshHead = .ok t' := by
  cases hop : t.session.route? with
  | none =>
      have hrequest : t.session.request? = none := by rw [Session.request?, hop, Option.map_none]
      rw [Tool.refreshHead, hrequest]
      exact ⟨t, rfl⟩
  | some op =>
      obtain ⟨answer, hanswer⟩ := ht op hop
      rw [refreshHead_running hop, hanswer]
      cases answer with
      | ok g => exact ⟨t.drawHead g, rfl⟩
      | error e => exact ⟨t, rfl⟩

/-- A change of the route that the question does not see does not change that. -/
theorem Answered.mapRoute {f : RouteOp → RouteOp} (ht : t.Answered)
    (hf : ∀ op : RouteOp, (f op).request = op.request)
    (hsession : t'.session = t.session.mapRoute f) (hworld : t'.world.route = t.world.route) :
    t'.Answered := by
  intro op' hop'
  rw [hsession, Session.route?_mapRoute] at hop'
  obtain ⟨op, hop, rfl⟩ := Option.map_eq_some_iff.mp hop'
  have hasked : t'.asks (f op) = t.asks op := by
    rw [asks_of_mapRoute hsession]
    simp only [asks, hf]
  rw [hasked, hworld]
  exact ht op hop

/-- Another head on the route does not change the question. -/
theorem Answered.redrawn (ht : t.Answered) (h : t' = t ∨ ∃ g, t' = t.drawHead g) :
    t'.Answered := by
  rcases h with rfl | ⟨g, rfl⟩
  · exact ht
  · exact ht.mapRoute (f := fun op => { op with head := some g }) (fun _ => rfl) rfl rfl

/-- **A shadow.**  The tool `t` is as `u` would be without the via at the head of its route. -/
structure Shadows (old now : LayerPair) (t u : Tool) : Prop where
  board : u.board = t.board
  world : u.world = t.world
  rules : u.rules = t.rules
  asks : u.asks = t.asks
  route : ∃ op p sizes head, t.session.route? = some op ∧
    u.session.route? = some (op.hanging p sizes head) ∧ op.Bears old now p sizes

/-- Logs and messages do not matter. -/
theorem Shadows.of_eq (h : Shadows old now t u) (l l' : CommandLog) (n n' : Host) :
    Shadows old now { t with log := l, host := n } { u with log := l', host := n' } :=
  ⟨h.board, h.world, h.rules, h.asks, h.route⟩

/-- Heads do not matter. -/
theorem Shadows.redrawn (h : Shadows old now t u) (ht : t' = t ∨ ∃ g, t' = t.drawHead g)
    (hu : u' = u ∨ ∃ g, u' = u.drawHead g) : Shadows old now t' u' := by
  obtain ⟨op, p, sizes, head, hop, hhung, hbears⟩ := h.route
  have hleft : Shadows old now t' u := by
    rcases ht with rfl | ⟨g, rfl⟩
    · exact h
    · refine ⟨h.board, h.world, h.rules, h.asks.trans (asks_of_mapRoute rfl).symm,
        { op with head := some g }, p, sizes, head, ?_, hhung, hbears.drawn (some g)⟩
      rw [drawHead, mapSession, Session.route?_mapRoute, hop, Option.map_some]
  rcases hu with rfl | ⟨g, rfl⟩
  · exact hleft
  · obtain ⟨op, p, sizes, head, hop, hhung, hbears⟩ := hleft.route
    refine ⟨hleft.board, hleft.world, hleft.rules, (asks_of_mapRoute rfl).trans hleft.asks,
      op, p, sizes, some g, hop, ?_, hbears⟩
    rw [drawHead, mapSession, Session.route?_mapRoute, hhung, Option.map_some]
    rfl

/-- **When the engine answers with the via**, it answers the shadow. -/
theorem Shadows.answered (h : Shadows old now t u) (hu : u.Answered) : t.Answered := by
  obtain ⟨op, p, sizes, head, hop, hhung, hbears⟩ := h.route
  obtain ⟨hbare, hasked⟩ :=
    hbears.request_hanging head t.session.mode t.session.posture t.session.rounded
  obtain ⟨answer, hanswer⟩ := hu _ hhung
  have hquestion : u.asks (op.hanging p sizes head) = { t.asks op with via := some p.via } := by
    rw [h.asks]
    exact hasked
  rw [hquestion, h.world] at hanswer
  intro op' hop'
  cases hop.symm.trans hop'
  exact World.route_of_via (by exact hbare) hanswer

/-- So the shadow can ask for its head when the tool with the via can. -/
theorem Shadows.refreshHead (h : Shadows old now t u) (hu : u.refreshHead = .ok u') :
    ∃ t', t.refreshHead = .ok t' ∧ Shadows old now t' u' ∧ t'.board = t.board := by
  obtain ⟨t', ht'⟩ := (h.answered (answered_of_refreshed hu)).refreshHead
  exact ⟨t', ht', h.redrawn (refreshHead_eq_ok ht') (refreshHead_eq_ok hu),
    (refreshHead_keepsRoute ht').board⟩

/-- The tool with other design settings, and with all sizes settled for them. -/
def redesigned (t : Tool) (change : Design → Design) : Tool :=
  { t with
    board := t.board.redesign change
    world := some (t.board.redesign change)
    session := t.session.mapRoute (RouteOp.renewSizes (t.board.redesign change) t.rules)
    host := t.host.notify .sizesChanged }

/-- New design settings lead to a new head. -/
theorem changeDesign_eq (t : Tool) (change : Design → Design) :
    t.changeDesign change = (t.redesigned change).refreshHead := rfl

/-- **A change of both routes** makes the one with the via from the other one, too, when it does
so for all routes. -/
theorem Shadows.mapRoute {f : RouteOp → RouteOp} {new : LayerPair} (h : Shadows old now t u)
    (hf : ∀ op p sizes head, op.Bears old now p sizes → ∃ p' sizes',
      f (op.hanging p sizes head) = (f op).hanging p' sizes' head ∧ (f op).Bears old new p' sizes')
    (ht : t'.session = t.session.mapRoute f) (hu : u'.session = u.session.mapRoute f)
    (hboard : u'.board = t'.board) (hworld : u'.world = t'.world) (hrules : u'.rules = t'.rules) :
    Shadows old new t' u' := by
  obtain ⟨op, p, sizes, head, hop, hhung, hbears⟩ := h.route
  obtain ⟨p', sizes', hmapped, hbears'⟩ := hf op p sizes head hbears
  have hasks : u'.asks = t'.asks := by
    rw [asks_of_mapRoute hu, asks_of_mapRoute ht]
    exact h.asks
  refine ⟨hboard, hworld, hrules, hasks, f op, p', sizes', head, ?_, ?_, hbears'⟩
  · rw [ht, Session.route?_mapRoute, hop, Option.map_some]
  · rw [hu, Session.route?_mapRoute, hhung, Option.map_some, hmapped]

/-- A shadow stays one under new design settings. -/
theorem Shadows.redesigned (h : Shadows old now t u) (change : Design → Design) :
    Shadows old now (t.redesigned change) (u.redesigned change) := by
  have hboard : u.board.redesign change = t.board.redesign change := by rw [h.board]
  refine h.mapRoute (f := RouteOp.renewSizes (t.board.redesign change) t.rules)
    (fun op p sizes head hbears => hbears.renewSizes head _ _) rfl ?_ hboard
    (congrArg some hboard) h.rules
  rw [← hboard, ← h.rules]
  rfl

/-- A shadow stays one when a pair of layers is chosen, which is the pair in force then. -/
theorem Shadows.selectLayerPair (h : Shadows old now t u) {pair : LayerPair}
    (hadmits : t.board.stackup.Admits pair) :
    Shadows old pair (t.selectLayerPair pair) (u.selectLayerPair pair) := by
  have hadmits' : u.board.stackup.Admits pair := by rw [h.board]; exact hadmits
  have hboard : u.board.withPair pair = t.board.withPair pair := by rw [h.board]
  rw [selectLayerPair_of_admits hadmits, selectLayerPair_of_admits hadmits']
  refine h.mapRoute (f := RouteOp.usePair pair) (fun op p sizes head hbears => ?_) rfl rfl hboard
    (congrArg some hboard) h.rules
  exact ⟨p, sizes, hbears.usePair head pair⟩

end Tool

/-- **An edit** sets sizes or chooses the pair of layers for vias. -/
inductive Command.Edits : Command → Prop
  | sizes {c : Command} {change : Design → Design} (hredesigns : c.Redesigns change) : Edits c
  | pair (pair : LayerPair) : Edits (.selectLayerPair pair)

/-- The pair of layers that a command chooses, if it does and the stackup admits it. -/
def Command.chosenPair? (s : Stackup) : Command → Option LayerPair
  | .selectLayerPair pair => if s.Admits pair then some pair else none
  | _ => none

/-- The pair that is in force behind edits: the last one chosen, or the one from before. -/
def pairBehind (s : Stackup) (pair : LayerPair) (cs : List Command) : LayerPair :=
  cs.foldl (fun pair c => (c.chosenPair? s).getD pair) pair

/-- A size command chooses no pair of layers. -/
theorem Command.Redesigns.chosenPair? {change : Design → Design} {c : Command}
    (h : c.Redesigns change) (s : Stackup) : c.chosenPair? s = none := by
  cases h <;> rfl

namespace Tool

variable {t t' u u' w : Tool} {c : Command} {op : RouteOp} {old now : LayerPair}

/-- **A size command** does to the shadow what it does to the tool with the via. -/
theorem Shadows.resized {change : Design → Design} {refusal : Option CommandRefusal}
    (h : Shadows old now t u) (hc : c.Redesigns change)
    (hu : u.execute c = .ok (u', refusal)) :
    refusal = none ∧ ∃ t', t.execute c = .ok (t', none) ∧ Shadows old now t' u' ∧
      t'.board.stackup = t.board.stackup := by
  rcases execute_redesigns hc with ⟨_, e, hrejected⟩ | ⟨_, hchanges⟩
  · cases (hrejected u).symm.trans hu
    exact ⟨rfl, t.report e, hrejected t, h.of_eq _ _ _ _, rfl⟩
  · rw [hchanges, changeDesign_eq] at hu
    obtain ⟨v, hv, hu⟩ := Checked.bind_eq_ok.mp hu
    cases hu
    obtain ⟨t', ht', hshadows, hboard⟩ := (h.redesigned change).refreshHead hv
    refine ⟨rfl, t', ?_, hshadows, by rw [hboard]; rfl⟩
    rw [hchanges, changeDesign_eq, ht']
    rfl

/-- **An edit** does so, too, except that only the shadow takes the pair that is chosen. -/
theorem Shadows.edited {refusal : Option CommandRefusal} (h : Shadows old now t u)
    (hc : c.Edits) (hu : u.handle c = .ok (u', refusal)) :
    refusal = none ∧ ∃ t', t.handle c = .ok (t', none) ∧
      Shadows old ((c.chosenPair? t.board.stackup).getD now) t' u' ∧
      t'.board.stackup = t.board.stackup := by
  have hlogged := h.of_eq (t.log.record c) (u.log.record c) t.host u.host
  cases hc with
  | sizes hredesigns =>
      rw [hredesigns.chosenPair?, Option.getD_none]
      exact hlogged.resized hredesigns hu
  | pair pair =>
      cases hu
      refine ⟨rfl, _, rfl, ?_⟩
      by_cases hadmits : t.board.stackup.Admits pair
      · simp only [Command.chosenPair?, if_pos hadmits, Option.getD_some]
        refine ⟨hlogged.selectLayerPair hadmits, ?_⟩
        rw [selectLayerPair_of_admits (by exact hadmits)]
        rfl
      · have hadmits' : ¬ u.board.stackup.Admits pair := by rw [h.board]; exact hadmits
        simp only [Command.chosenPair?, if_neg hadmits, Option.getD_none]
        rw [selectLayerPair_of_not_admits (by exact hadmits),
          selectLayerPair_of_not_admits (by exact hadmits')]
        exact ⟨hlogged.of_eq _ _ _ _, rfl⟩

/-- **So do edits in a row.** -/
theorem Shadows.allEdited {cs : List Command} {out : IntentOutcome} (h : Shadows old now t u)
    (hcs : ∀ c ∈ cs, c.Edits) (hu : u.handleAll cs = .ok out) :
    ∃ alone, t.handleAll cs = .ok alone ∧
      Shadows old (pairBehind t.board.stackup now cs) alone.tool out.tool := by
  induction cs generalizing t u now out with
  | nil =>
      cases hu
      exact ⟨⟨t, [], none⟩, rfl, h⟩
  | cons c cs ih =>
      obtain ⟨⟨v, refusal⟩, hv, hu⟩ := Checked.bind_eq_ok.mp hu
      obtain ⟨rfl, t', ht', hshadows, hstackup⟩ := h.edited (hcs c (List.mem_cons_self ..)) hv
      obtain ⟨rest, hrest, hu⟩ := Checked.bind_eq_ok.mp hu
      cases hu
      obtain ⟨alone, halone, hlast⟩ :=
        ih hshadows (fun c hc => hcs c (List.mem_cons_of_mem _ hc)) hrest
      refine ⟨⟨alone.tool, c :: alone.commands, alone.refusal⟩, ?_, ?_⟩
      · exact Checked.bind_eq_ok.mpr ⟨_, ht', Checked.bind_eq_ok.mpr ⟨alone, halone, rfl⟩⟩
      · rw [hstackup] at hlast
        exact hlast

/-- An engine in step with the board answers behind an edit, too. -/
theorem edit_answered {refusal : Option CommandRefusal} (hc : c.Edits)
    (ht : t.InStep ∧ t.Answered) (h : t.handle c = .ok (t', refusal)) :
    refusal = none ∧ t'.InStep ∧ t'.Answered := by
  obtain ⟨hinStep, ht⟩ := ht
  cases hc with
  | sizes hredesigns =>
      rcases execute_redesigns hredesigns with ⟨_, e, hrejected⟩ | ⟨_, hchanges⟩
      · cases (hrejected _).symm.trans h
        exact ⟨rfl, hinStep, ht⟩
      · rw [handle, hchanges, changeDesign_eq] at h
        obtain ⟨v, hrefreshed, h⟩ := Checked.bind_eq_ok.mp h
        cases h
        have hdrawn := refreshHead_eq_ok hrefreshed
        refine ⟨rfl, ?_, (answered_of_refreshed hrefreshed).redrawn hdrawn⟩
        rcases hdrawn with rfl | ⟨g, rfl⟩
        · exact rfl
        · exact rfl
  | pair pair =>
      cases h
      by_cases hadmits : t.board.stackup.Admits pair
      · rw [selectLayerPair_of_admits (by exact hadmits)]
        refine ⟨rfl, rfl, ht.mapRoute (fun op => op.request_usePair pair) rfl ?_⟩
        show World.route (some (t.board.withPair pair)) = t.world.route
        rw [World.route_withPair, ← hinStep]
      · rw [selectLayerPair_of_not_admits (by exact hadmits)]
        exact ⟨rfl, hinStep, ht⟩

/-- **A tool that accepts a via** has itself for a shadow, as it was, and has asked for its
head. -/
theorem shadows_of_placed {v : ViaType} {target : Option LayerId} {hung : RouteOp}
    {refusal : Option CommandRefusal} (hop : t.session.route? = some op) (hbare : op.via = none)
    (hpair : op.sizes.layerPairs = [now]) (hu : t.handle (.placeVia v target) = .ok (u, refusal))
    (hhung : u.session.route? = some hung) (haccepted : hung.via.isSome = true) :
    Shadows now now t u ∧ u.Answered := by
  have hplaced := Checked.of_tagged hu
  simp only [placeVia, toggleVia, mapSession] at hplaced
  have hroute : Session.route? { t.session with pendingViaTarget := none } = some op := hop
  simp only [hroute, hbare, Option.isSome_none, Bool.false_eq_true, if_false] at hplaced
  split at hplaced
  · -- a refused via would leave the route without one
    cases hplaced
    cases hop.symm.trans hhung
    rw [hbare] at haccepted
    cases haccepted
  · next resolved _ =>
      have hdrawn := refreshHead_eq_ok hplaced
      refine ⟨Shadows.redrawn ?_ (.inl rfl) hdrawn, (answered_of_refreshed hplaced).redrawn hdrawn⟩
      refine ⟨rfl, rfl, rfl, rfl, op, _, _, op.head, hop, rfl, ?_⟩
      refine ⟨hbare, hpair, rfl, ((Sizes.withPair_eq_iff hpair now).mpr rfl).symm, ?_⟩
      exact op.tracks_hangVia t.board t.rules resolved

/-- The tools are alike in their boards, their active layers and their routes `op` and `op'`,
except for the pair of layers in the sizes, which is `old` in the second one. -/
structure AlikeBut (old : LayerPair) (t w : Tool) (op op' : RouteOp) : Prop where
  board : w.board = t.board
  active : w.session.activeLayer = t.session.activeLayer
  layer : op'.layer = op.layer
  via : op'.via = op.via
  sizes : op'.sizes = op.sizes.withPair old

/-- **The via can be taken back** when the engine answers the shadow. -/
theorem Shadows.withdraws (h : Shadows old now t u) (ht : t.Answered) (v : ViaType)
    (target : Option LayerId) : ∃ w refusal, u.handle (.placeVia v target) = .ok (w, refusal) := by
  obtain ⟨op, p, sizes, head, hop, hhung, hbears⟩ := h.route
  let bare : Tool := mapSession { u with
    session := { u.session with pendingViaTarget := none }
    log := u.log.record (.placeVia v target) } Session.withdrawVia
  have hroute : bare.session.route? = some (op.hanging p sizes head).withdrawVia := by
    show (Session.withdrawVia _).route? = _
    rw [Session.route?_withdrawVia]
    exact congrArg (Option.map RouteOp.withdrawVia) hhung
  have hquestion : bare.asks (op.hanging p sizes head).withdrawVia = t.asks op := by
    have hasks : bare.asks = t.asks := (asks_withdrawVia _).trans h.asks
    rw [hasks]
    exact hbears.request_withdrawVia head _ _ _
  have hanswered : bare.Answered := by
    intro op' hop'
    cases hroute.symm.trans hop'
    have hworld : bare.world = t.world := h.world
    rw [hquestion, hworld]
    exact ht op hop
  obtain ⟨w, hw⟩ := hanswered.refreshHead
  refine ⟨w, none, Checked.bind_eq_ok.mpr ⟨w, ?_, rfl⟩⟩
  exact (placeVia_of_hung (by exact hhung) rfl).trans hw

/-- **A via taken back** leaves what the shadow has, and the pair of layers that it remembers. -/
theorem Shadows.withdrawn {v : ViaType} {target : Option LayerId}
    {refusal : Option CommandRefusal} (h : Shadows old now t u)
    (hu : u.handle (.placeVia v target) = .ok (w, refusal)) (ht : t.session.GoesOn)
    (hw : w.session.GoesOn) :
    ∃ op op', t.session.route? = some op ∧ w.session.route? = some op' ∧ op'.via = none ∧
      op.sizes.layerPairs = [now] ∧ AlikeBut old t w op op' := by
  obtain ⟨op, p, sizes, head, hop, hhung, hbears⟩ := h.route
  obtain ⟨op', hop', hsame, hboard⟩ :=
    placeVia_withdraws (by exact hhung) rfl (Checked.of_tagged hu)
  have hvia : op'.via = none := hsame.via
  have hlayer : op'.layer = op.layer := hsame.layer.trans hbears.source
  -- without a via, both sessions go on on the layer of the head
  have hactive : w.session.activeLayer = t.session.activeLayer := by
    rw [ht op hop, hw op' hop', nextLayer, nextLayer, hbears.bare, hvia]
    exact hlayer
  exact ⟨op, op', hop, hop', hvia, hbears.pair, hboard.trans h.board, hactive, hlayer,
    hvia.trans hbears.bare.symm, hsame.sizes.trans hbears.remembered⟩

/-- **Placing a via, edits, and taking the via back** in a reachable state leave what the edits
alone leave, except for the pair of layers: that stays the one from before.  So they leave the
same exactly when this is the pair that is in force behind the edits.  With an engine in step
with the board, the via can always be taken back. -/
theorem reached_withdrawn {board : Board} {world : World} {options : Options} {rules : RuleSet}
    {search : TreeSearch} {confirms : Bool}
    (hreached : (new board world options rules search confirms).Reaches t)
    (hop : t.session.route? = some op) (hbare : op.via = none) {v : ViaType}
    {target : Option LayerId} {refusal : Option CommandRefusal} {hung : RouteOp}
    (hplace : t.handle (.placeVia v target) = .ok (u, refusal))
    (hhung : u.session.route? = some hung) (haccepted : hung.via.isSome = true)
    {cs : List Command} (hcs : ∀ c ∈ cs, c.Edits) {out : IntentOutcome}
    (hedit : u.handleAll cs = .ok out) (v' : ViaType) (target' : Option LayerId) :
    ∃ old alone op₁, op.sizes.layerPairs = [old] ∧ t.handleAll cs = .ok alone ∧
      alone.tool.session.route? = some op₁ ∧
      (t.InStep → ∃ w refusal', out.tool.handle (.placeVia v' target') = .ok (w, refusal')) ∧
      ∀ w refusal', out.tool.handle (.placeVia v' target') = .ok (w, refusal') →
        ∃ op₂, w.session.route? = some op₂ ∧ op₂.via = none ∧
          alone.tool.AlikeBut old w op₁ op₂ ∧
          (op₂.sizes = op₁.sizes ↔ pairBehind t.board.stackup old cs = old) := by
  obtain ⟨old, hold⟩ := hreached.onePair.sizes op hop
  obtain ⟨hshadows, hanswered⟩ := shadows_of_placed hop hbare hold hplace hhung haccepted
  obtain ⟨alone, halone, hlast⟩ := hshadows.allEdited hcs hedit
  obtain ⟨op₁, _, _, _, hop₁, _⟩ := hlast.route
  refine ⟨old, alone, op₁, hold, halone, hop₁, fun hinStep => ?_, fun w refusal' hback => ?_⟩
  · have hkept := (handleAll_invariant (fun _ c _ _ hc ht h => edit_answered (hcs c hc) ht h)
      ⟨hinStep, hshadows.answered hanswered⟩ halone).2
    exact hlast.withdraws hkept.2 v' target'
  · have hafter := ((hreached.handle hplace).handleAll hedit).handle hback
    obtain ⟨op', op₂, hop', hop₂, hvia, hnow, halike⟩ :=
      hlast.withdrawn hback (hreached.handleAll halone).goesOn.2 hafter.goesOn.2
    cases hop₁.symm.trans hop'
    refine ⟨op₂, hop₂, hvia, halike, ?_⟩
    rw [halike.sizes]
    exact Sizes.withPair_eq_iff hnow old

/-- A track width that is set, and a pair that is chosen although it is in force. -/
def widerTracks : List Command := [.setCustomTrackWidth 300000, .selectLayerPair ⟨⟨0⟩, ⟨1⟩⟩]

/-- They leave the same whether a via hung at the head meanwhile or not. -/
theorem reached_withdrawn_widerTracks :
    ∃ t op u hung out, (launch Board.standard Options.standard [] true).serve
        (viaStep.take 1) = .ok t ∧ t.session.route? = some op ∧ op.via = none ∧
      t.handle (.placeVia .through none) = .ok (u, none) ∧ u.session.route? = some hung ∧
      hung.via.isSome = true ∧ (∀ c ∈ widerTracks, c.Edits) ∧ u.handleAll widerTracks = .ok out ∧
      t.InStep ∧ ∃ w refusal alone op₁ op₂,
        out.tool.handle (.placeVia .through none) = .ok (w, refusal) ∧
        t.handleAll widerTracks = .ok alone ∧ alone.tool.session.route? = some op₁ ∧
        w.session.route? = some op₂ ∧ op₂.sizes = op₁.sizes := by
  have hedits : ∀ c ∈ widerTracks, c.Edits := by
    intro c hc
    rcases List.mem_pair.mp hc with rfl | rfl
    · exact .sizes (.trackWidth 300000)
    · exact .pair _
  obtain ⟨t, op, u, hung, out, hserve, hop, hbare, hpair, hstackup, hinStep, hplace, hhung,
      haccepted, hedit⟩ : ∃ t op u hung out,
      (launch Board.standard Options.standard [] true).serve (viaStep.take 1) = .ok t ∧
        t.session.route? = some op ∧ op.via = none ∧
        op.sizes.layerPairs = [⟨⟨0⟩, ⟨1⟩⟩] ∧ t.board.stackup = Stackup.standard ∧ t.InStep ∧
        t.handle (.placeVia .through none) = .ok (u, none) ∧ u.session.route? = some hung ∧
        hung.via.isSome = true ∧ u.handleAll widerTracks = .ok out :=
    ⟨_, _, _, _, _, by rfl, by rfl, by rfl, by rfl, by rfl, by rfl, by rfl, by rfl, by rfl, by rfl⟩
  obtain ⟨old, alone, op₁, hold, halone, hop₁, hreturns, hwithdrawn⟩ :=
    reached_withdrawn (Reaches.start.serve hserve) hop hbare hplace hhung haccepted hedits hedit
      .through none
  obtain ⟨w, refusal, hback⟩ := hreturns hinStep
  obtain ⟨op₂, hop₂, _, _, hsame⟩ := hwithdrawn w refusal hback
  cases hpair.symm.trans hold
  refine ⟨t, op, u, hung, out, hserve, hop, hbare, hplace, hhung, haccepted, hedits, hedit, hinStep,
    w, refusal, alone, op₁, op₂, hback, halone, hop₁, hop₂, hsame.mpr ?_⟩
  rw [hstackup]
  decide

/-- Another pair that is chosen while the via hangs at the head is lost when the via is taken
back. -/
theorem reached_not_withdrawn :
    ∃ t u out w alone op₁ op₂,
      (launch (Board.empty (Stackup.ofCount 4) Design.standard) Options.standard [] true).serve
        (viaStep.take 1) = .ok t ∧
      t.handle (.placeVia .through none) = .ok (u, none) ∧
      u.handleAll [.selectLayerPair ⟨⟨0⟩, ⟨1⟩⟩] = .ok out ∧
      out.tool.handle (.placeVia .through none) = .ok (w, none) ∧
      t.handleAll [.selectLayerPair ⟨⟨0⟩, ⟨1⟩⟩] = .ok alone ∧
      alone.tool.session.route? = some op₁ ∧ w.session.route? = some op₂ ∧
      op₁.sizes.layerPairs = [⟨⟨0⟩, ⟨1⟩⟩] ∧ op₂.sizes.layerPairs = [⟨⟨0⟩, ⟨3⟩⟩] ∧
      op₂.sizes ≠ op₁.sizes := by
  exact ⟨_, _, _, _, _, _, _, by rfl, by rfl, by rfl, by rfl, by rfl, by rfl, by rfl, by rfl,
    by rfl, fun hsame => by cases congrArg Sizes.layerPairs hsame⟩

end Tool

end CopperRoute
