import CopperRoute.Proofs.StagedCopper

/-!
# The copper that a head leaves from

The engine leaves the copper that a head starts on out of its collision test, and the
sizes of vias are looked up for it.  Both are right as long as this copper is the
route's **own**: an item of the board that has the route's net and reaches the layer of
the head (`Board.OwnCopper`).

A route loses that in three ways (`Tool.Strays`).  It is begun on an item, or goes
directly to a layer, that only the engine vouches for: this takes a world that is not
the board.  Or a fix makes the item under the pointer the start of the next head,
although the head did not end on it.
-/

namespace CopperRoute

/-- **Own copper**: an item of the board with this net that reaches this layer.
Starting from no item is always right. -/
def Board.OwnCopper (b : Board) (net : NetCode) (id : Option ItemId) (layer : LayerId) : Prop :=
  ∀ i, id = some i → ∃ item, b.item? i = some item ∧ item.net = net ∧
    item.layers.contains layer = true

/-- Only the items of the board matter. -/
theorem Board.OwnCopper.of_items {b b' : Board} {net : NetCode} {id : Option ItemId}
    {layer : LayerId} (h : b.OwnCopper net id layer) (hitems : b'.items = b.items) :
    b'.OwnCopper net id layer := by
  intro i hi
  obtain ⟨item, hitem, hown⟩ := h i hi
  refine ⟨item, ?_, hown⟩
  rw [Board.item?, hitems]
  exact hitem

/-- **What own copper is good for**: the next via takes the sizes of the route's net. -/
theorem RouteOp.netCode_sizingKey {op : RouteOp} {b : Board} {layer : LayerId}
    (h : b.OwnCopper op.net op.startItem layer) : (op.sizingKey b).netCode = op.net := by
  unfold sizingKey
  cases hid : op.startItem with
  | none => rfl
  | some i =>
      obtain ⟨item, hitem, hnet, _⟩ := h i hid
      simp [hitem, SizingKey.ofStart, SizingKey.netCode, hnet]

namespace Tool

/-- The head of the running route leaves from own copper. -/
def StartsOwn (t : Tool) : Prop :=
  ∀ op, t.session.route? = some op → t.board.OwnCopper op.net op.startItem op.layer

/-- So did the heads of its fixed steps; and the route is traced. -/
structure Backs (t : Tool) : Prop extends t.Traces where
  steps : ∀ op, t.session.route? = some op → ∀ s ∈ op.steps,
    t.board.OwnCopper op.net s.startItem s.layer

/-- **Straying.**  A command lets a head leave from copper that is not the route's own. -/
inductive Strays (t : Tool) : Command → Prop
  | start {p : Point} {id : Option ItemId} {u : Tool} {op : RouteOp} (hidle : t.makeIdle = .ok u)
      (hopens : u.Opens p id op) (hstray : ¬ u.board.OwnCopper op.net op.startItem op.layer) :
      Strays t (.startRouting p id)
  | fix {p : Point} {id : Option ItemId} {op : RouteOp} {g : RouteGeometry}
      (hop : t.session.route? = some op)
      (hanswer : t.world.route (t.asks (op.aim p id op.ortho)) = .ok (.ok g))
      (hmissed : g.reachedTarget = false) (hcopper : g.items ≠ [])
      (hstray : ¬ t.board.OwnCopper op.net (op.aim p id op.ortho).stopItem
        ((op.aim p id op.ortho).pushStep g).layer) : Strays t (.fixRoute p id false)
  | switch {command : LayerCommand} {layer : LayerId} {op : RouteOp}
      (hop : t.session.route? = some op)
      (hresolve : command.resolve op.withdrawVia.layer t.board.enabledLayers = some layer)
      (hdirect : t.world.switchLayer (t.asks op.withdrawVia) layer = .direct)
      (hstray : ¬ t.board.OwnCopper op.net op.startItem layer) : Strays t (.switchLayer command)

theorem startItem_withdrawVia (op : RouteOp) : op.withdrawVia.startItem = op.startItem := by
  unfold RouteOp.withdrawVia
  split <;> rfl

theorem net_withdrawVia (op : RouteOp) : op.withdrawVia.net = op.net := by
  unfold RouteOp.withdrawVia
  split <;> rfl

/-- A way that the route is changed to leaves from own copper, when the command does not
stray. -/
theorem Rerouting.ownCopper {t : Tool} {op way : RouteOp} {c : Command} (ht : t.Backs)
    (hchange : t.Rerouting op c way) (hop : t.session.route? = some op)
    (hown : t.board.OwnCopper op.net op.startItem op.layer) (hgood : ¬ t.Strays c) :
    t.board.OwnCopper way.net way.startItem way.layer := by
  have hwithdrawn : t.board.OwnCopper op.withdrawVia.net op.withdrawVia.startItem
      op.withdrawVia.layer := by
    rw [net_withdrawVia, startItem_withdrawVia, (ht.traced op hop).layer_withdrawVia]
    exact hown
  cases hchange with
  | kept => exact hown
  | extended hanswer hmissed hcopper =>
      by_contra hstray
      exact hgood (.fix hop hanswer hmissed hcopper hstray)
  | undone hundo =>
      obtain ⟨s, hs, rfl⟩ := Option.map_eq_some_iff.mp hundo
      exact ht.steps op hop s (List.mem_of_getLast? hs)
  | withdrawn => exact hwithdrawn
  | hung => exact hown
  | @jumped command layer hresolve hdirect =>
      show t.board.OwnCopper op.withdrawVia.net op.withdrawVia.startItem layer
      rw [net_withdrawVia, startItem_withdrawVia]
      by_contra hstray
      exact hgood (.switch hop hresolve hdirect hstray)
  | hungBelow => exact hwithdrawn

/-- A way's fixed steps left from own copper, when the head did before. -/
theorem Rerouting.ownSteps {t : Tool} {op way : RouteOp} {c : Command} (ht : t.Backs)
    (hchange : t.Rerouting op c way) (hop : t.session.route? = some op)
    (hown : t.board.OwnCopper op.net op.startItem op.layer) :
    ∀ s ∈ way.steps, t.board.OwnCopper way.net s.startItem s.layer := by
  have hsteps := ht.steps op hop
  have hwithdrawn : ∀ s ∈ op.withdrawVia.steps,
      t.board.OwnCopper op.withdrawVia.net s.startItem s.layer := by
    rw [op.steps_withdrawVia, net_withdrawVia]
    exact hsteps
  cases hchange with
  | kept => exact hsteps
  | extended =>
      intro s hs
      rcases List.mem_append.mp hs with hs | hs
      · exact hsteps s hs
      · rw [List.mem_singleton.mp hs]
        exact hown
  | undone hundo =>
      obtain ⟨s, _, rfl⟩ := Option.map_eq_some_iff.mp hundo
      exact fun s' hs' => hsteps s' (List.dropLast_subset _ hs')
  | withdrawn => exact hwithdrawn
  | hung => exact hsteps
  | jumped => exact hwithdrawn
  | hungBelow => exact hwithdrawn

theorem Backs.ready {t : Tool} (ht : t.Backs) (k : Turn) : (t.ready k).Backs :=
  ⟨⟨ht.orderly.ready k, ht.traced⟩, ht.steps⟩

/-- As long as heads leave from own copper, the fixed steps did. -/
theorem turn_backs {t t' : Tool} {k : Turn} (ht : t.Backs) (hown : t.StartsOwn)
    (h : t.turn k = .ok t') : t'.Backs := by
  refine ⟨turn_traces ht.toTraces h, fun op' hop' => ?_⟩
  obtain ⟨refusal, h⟩ := turn_eq_ok.mp h
  cases execute_reroutes (ht.orderly.ready k) hop' h with
  | began _ _ hopens _ =>
      rw [hopens.fresh]
      intro s hs
      cases hs
  | changed hop hchange hsame hitems =>
      rw [hsame.steps, hsame.net]
      exact fun s hs => (hchange.ownSteps (ht.ready k) hop (hown _ hop) s hs).of_items hitems

/-- **A turn keeps to own copper** exactly when its command does not stray. -/
theorem turn_startsOwn_iff {t t' : Tool} {k : Turn} (ht : t.Backs) (hown : t.StartsOwn)
    (h : t.turn k = .ok t') : t'.StartsOwn ↔ ¬ (t.ready k).Strays k.command := by
  obtain ⟨refusal, h⟩ := turn_eq_ok.mp h
  constructor
  · intro hstarts hbad
    generalize k.command = c at h hbad
    cases hbad with
    | start hidle hopens hstray =>
        obtain ⟨hop', hboard⟩ := startRouting_opens hidle hopens (Checked.of_tagged h)
        exact hstray (hboard ▸ hstarts _ hop')
    | fix hop hanswer hmissed hcopper hstray =>
        obtain ⟨hop', hboard⟩ := fixRoute_extends hop hanswer hmissed hcopper (Checked.of_tagged h)
        exact hstray (hboard ▸ hstarts _ hop')
    | @switch command layer op hop hresolve hdirect hstray =>
        obtain ⟨op', hop', hsame, hboard⟩ :=
          switchLayer_jumps hop hresolve hdirect (Checked.of_tagged h)
        have hlast := hstarts op' hop'
        rw [hsame.net, hsame.startItem, hsame.layer, hboard] at hlast
        refine hstray ?_
        rw [← net_withdrawVia op, ← startItem_withdrawVia op]
        exact hlast
  · intro hgood op' hop'
    cases execute_reroutes (ht.orderly.ready k) hop' h with
    | began hcommand hidle hopens hboard =>
        rw [hboard]
        by_contra hstray
        exact hgood (hcommand ▸ .start hidle hopens hstray)
    | changed hop hchange hsame hitems =>
        rw [hsame.net, hsame.startItem, hsame.layer]
        exact (hchange.ownCopper (ht.ready k) hop (hown _ hop) hgood).of_items hitems

/-- The engine has no world, or the board. -/
def Synced (t : Tool) : Prop := t.world = none ∨ t.world = some t.board

theorem commit_synced {t t' : Tool} {c : Changeset} {r : Except CommitRejection CommitReport}
    (ht : t.Synced) (h : t.commit c = .ok (r, t')) : t'.Synced := by
  rcases commit_eq_ok h with ⟨_, rfl⟩ | ⟨_, rfl⟩ | ⟨board, _, _, _, _, _, rfl⟩
  · exact ht
  · exact ht
  · exact .inr rfl

theorem makeIdle_synced {t t' : Tool} (ht : t.Synced) (h : t.makeIdle = .ok t') : t'.Synced := by
  unfold makeIdle at h
  split at h
  · cases h
    exact ht
  · obtain ⟨⟨u, stopped⟩, hstop, h⟩ := Checked.bind_eq_ok.mp h
    cases h
    obtain ⟨v, hstaged, hstop⟩ := Checked.bind_eq_ok.mp hstop
    have hv : v.Synced := by
      rcases commitStaged_eq_ok hstaged with rfl | ⟨c, r, w, hcommit, hlast⟩
      · exact ht
      · have hw : w.Synced := commit_synced ht hcommit
        rcases hlast with rfl | ⟨e, rfl⟩ <;> exact hw
    generalize v.toInteraction.cancel = c at hstop
    obtain ⟨i, stopped'⟩ := c
    cases hstop
    exact hv

/-- What the engine lets a route start on is own copper, when its world is the board. -/
theorem Opens.ownCopper {t : Tool} {p : Point} {id : Option ItemId} {op : RouteOp}
    (ht : t.Synced) (h : t.Opens p id op) : t.board.OwnCopper op.net op.startItem op.layer := by
  have haccepted := h.accepted
  have hid : op.startItem = id := by rw [h.fresh]; rfl
  have hnet : op.net = startNet (id.bind t.board.item?) := by rw [h.fresh]; rfl
  intro i hi
  rw [hid] at hi
  cases hi
  rcases ht with hworld | hworld
  · rw [hworld] at haccepted
    cases haccepted
  · rw [hworld] at haccepted
    simp only [World.startRefusal?] at haccepted
    split at haccepted
    · cases haccepted
    · next item hitem =>
        refine ⟨item, hitem, ?_, ?_⟩
        · rw [hnet, Option.bind_some, hitem]
          rfl
        · by_contra hreach
          simp [hreach, pure, Except.pure] at haccepted

/-- Where the engine lets a head go directly it stays on own copper, when its world is
the board. -/
theorem ownCopper_of_direct {t : Tool} {op : RouteOp} {layer : LayerId} (ht : t.Synced)
    (hown : t.board.OwnCopper op.net op.startItem op.layer)
    (hdirect : t.world.switchLayer (t.asks op.withdrawVia) layer = .direct) :
    t.board.OwnCopper op.net op.startItem layer := by
  intro i hi
  obtain ⟨item, hitem, hnet, _⟩ := hown i hi
  refine ⟨item, hitem, hnet, ?_⟩
  have hasked : (t.asks op.withdrawVia).startItem = some i := by
    rw [← hi, ← startItem_withdrawVia op]
    rfl
  rcases ht with hworld | hworld
  · rw [hworld] at hdirect
    cases hdirect
  · rw [hworld] at hdirect
    simp only [World.switchLayer, hasked, Option.bind_some, hitem, Option.any_some] at hdirect
    split at hdirect
    · cases hdirect
    · split at hdirect
      · next hreach => exact (Bool.and_eq_true_iff.mp hreach).2
      · cases hdirect

/-- What a head names without ending on it is no copper of its own, when the engine's
world is the board: the engine would have ended the head there. -/
theorem ownCopper_iff_of_missed {t : Tool} {op : RouteOp} {g : RouteGeometry} (ht : t.Synced)
    (hanswer : t.world.route (t.asks op) = .ok (.ok g)) (hmissed : g.reachedTarget = false) :
    t.board.OwnCopper op.net op.stopItem op.layer ↔ op.stopItem = none := by
  constructor
  · intro hown
    by_contra hnamed
    obtain ⟨i, hi⟩ := Option.ne_none_iff_exists'.mp hnamed
    obtain ⟨item, hitem, hnet, hlayers⟩ := hown i hi
    obtain ⟨b, hworld, hg⟩ := World.route_eq_ok hanswer
    have hboard : b = t.board := by
      rcases ht with hnone | hsome
      · rw [hnone] at hworld
        cases hworld
      · exact (Option.some.inj (hsome.symm.trans hworld)).symm
    subst hboard
    have htarget : t.board.routeTarget (t.asks op) = some item := by
      simp [Board.routeTarget, asks, RouteOp.request, hi, hitem, hnet, hlayers]
    rw [Board.routeGeometry_reachedTarget hg, htarget] at hmissed
    cases hmissed
  · intro hnone i hi
    rw [hnone] at hi
    cases hi

/-- **In step with the engine** only a fix with the pointer on an item can stray. -/
theorem Strays.eq_fixRoute {t : Tool} {c : Command} (h : t.Strays c) (ht : t.Synced)
    (hown : t.StartsOwn) : ∃ p i, c = .fixRoute p (some i) false := by
  cases h with
  | start hidle hopens hstray => exact absurd (hopens.ownCopper (makeIdle_synced ht hidle)) hstray
  | @fix p id op g hop hanswer hmissed hcopper hstray =>
      cases id with
      | none => exact absurd (fun _ hi => by cases hi) hstray
      | some i => exact ⟨p, i, rfl⟩
  | switch hop _ hdirect hstray => exact absurd (ownCopper_of_direct ht (hown _ hop) hdirect) hstray

/-- Then such a fix, which makes a step and has no via to go through, strays exactly
when it names an item that its head did not start on. -/
theorem strays_fixRoute_iff {t : Tool} {p : Point} {id : Option ItemId} {op : RouteOp}
    {g : RouteGeometry} (ht : t.Synced) (hop : t.session.route? = some op) (hvia : op.via = none)
    (hanswer : t.world.route (t.asks (op.aim p id op.ortho)) = .ok (.ok g))
    (hmissed : g.reachedTarget = false) (hcopper : g.items ≠ []) :
    t.Strays (.fixRoute p id false) ↔ ∃ i, id = some i ∧ op.startItem ≠ some i := by
  have hlayer : ((op.aim p id op.ortho).pushStep g).layer = (op.aim p id op.ortho).layer := by
    obtain ⟨b, _, hg⟩ := World.route_eq_ok hanswer
    have hstop := Board.routeGeometry_stopLayer hg
    simp [RouteOp.pushStep, RouteOp.aim, hvia, hstop, Board.headLayer, asks, RouteOp.request]
  have hown := ownCopper_iff_of_missed ht hanswer hmissed
  have hnamed : (op.aim p id op.ortho).stopItem = none ↔
      ¬ ∃ i, id = some i ∧ op.startItem ≠ some i := by
    simp only [RouteOp.aim, Option.filter_eq_none_iff, bne_iff_ne]
    constructor
    · rintro hnone ⟨i, hi, hstart⟩
      exact hnone i hi hstart.symm
    · intro hnot i hi hstart
      exact hnot ⟨i, hi, hstart.symm⟩
  constructor
  · intro hbad
    by_contra hnot
    cases hbad with
    | @fix _ _ op' g' hop' hanswer' _ _ hstray =>
        cases hop.symm.trans hop'
        cases hanswer.symm.trans hanswer'
        rw [hlayer] at hstray
        exact hstray (hown.mpr (hnamed.mpr hnot))
  · intro hitem
    refine .fix hop hanswer hmissed hcopper fun hkept => ?_
    rw [hlayer] at hkept
    exact hnamed.mp (hown.mp hkept) hitem

/-- **Heads leave from own copper** throughout a run exactly when no command strays.
As long as they do, whatever item the engine leaves out of its collision test for the
start of a head has the net of the route, and so have the sizes of its next via; and
while the engine is in step, the next command can stray only by fixing the route with
the pointer on an item. -/
theorem run_startsOwn_iff (board : Board) (world : World) (options : Options) (rules : RuleSet)
    (search : TreeSearch) (confirms : Bool) (ks : List Turn) :
    ((new board world options rules search confirms).Always StartsOwn ks ↔
      (new board world options rules search confirms).Avoids Strays ks) ∧
      ∀ t : Tool, t.StartsOwn → ∀ op, t.session.route? = some op →
        (∀ i item, (t.asks op).startItem = some i → t.board.item? i = some item →
          item.net = op.net) ∧ (op.sizingKey t.board).netCode = op.net ∧
        (t.Synced → ∀ c, t.Strays c → ∃ p i, c = .fixRoute p (some i) false) := by
  have hnone (op : RouteOp) :
      (new board world options rules search confirms).session.route? ≠ some op := nofun
  have hnew : (new board world options rules search confirms).Backs :=
    ⟨traces_new board world options rules search confirms, fun op hop => absurd hop (hnone op)⟩
  refine ⟨always_iff_avoids (I := Backs) (fun _ _ _ => turn_backs)
    (fun _ _ _ => turn_startsOwn_iff) hnew fun op hop => absurd hop (hnone op), ?_⟩
  intro t ht op hop
  refine ⟨fun i item hi hitem => ?_, RouteOp.netCode_sizingKey (ht op hop),
    fun hsynced c hstrays => hstrays.eq_fixRoute hsynced ht⟩
  obtain ⟨own, hown, hnet, _⟩ := ht op hop i hi
  cases hown.symm.trans hitem
  exact hnet

/-- A route by a via leaves from own copper all the way.  On its first pad it could stray,
by a fix with the pointer on the other one. -/
theorem run_startsOwn_by_via :
    (launch padsApart Options.standard [] true).Always StartsOwn viaTurns ∧
      ∃ t op, (launch padsApart Options.standard [] true).run (viaTurns.take 1) = .ok t ∧
        t.session.route? = some op ∧ op.startItem = some 1 ∧
        (op.sizingKey t.board).netCode = op.net ∧ t.Synced ∧
        t.Strays (.fixRoute ⟨1000000, 0⟩ (some 2) false) ∧
        ∀ c, t.Strays c → ∃ p i, c = .fixRoute p (some i) false := by
  have hstart (t : Tool) (ht : t.Synced) (hnone : t.session.route? = none) (p : Point)
      (id : Option ItemId) : ¬ t.Strays (.startRouting p id) := by
    intro hbad
    have hown : t.StartsOwn := fun op hop => by rw [hnone] at hop; cases hop
    obtain ⟨_, _, hfix⟩ := hbad.eq_fixRoute ht hown
    cases hfix
  -- a fix in the open makes no item the start of the next head
  have hopen (t : Tool) (p : Point) : ¬ t.Strays (.fixRoute p none false) := by
    intro hbad
    cases hbad with
    | fix _ _ _ _ hstray => exact hstray nofun
  have hplace (t : Tool) (v : ViaType) (target : Option LayerId) :
      ¬ t.Strays (.placeVia v target) := nofun
  obtain ⟨hall, hstate⟩ := run_startsOwn_iff padsApart (some padsApart) Options.standard _ _ true
    viaTurns
  have halways := hall.mpr fun _ _ => ⟨hstart _ (.inr rfl) rfl _ _, fun _ _ => ⟨hopen _ _,
    fun _ _ => ⟨hplace _ _ _, fun _ _ => ⟨hopen _ _, trivial⟩⟩⟩⟩
  obtain ⟨t, op, g, hturn, hop, hid, hvia, hsynced, hanswer, hmissed, hcopper⟩ :
      ∃ t op g, (launch padsApart Options.standard [] true).turn
          ⟨.startRouting ⟨0, 0⟩ (some 1), true⟩ = .ok t ∧ t.session.route? = some op ∧
        op.startItem = some 1 ∧ op.via = none ∧ t.world = some t.board ∧
        t.world.route (t.asks (op.aim ⟨1000000, 0⟩ (some 2) op.ortho)) = .ok (.ok g) ∧
        g.reachedTarget = false ∧ g.items ≠ [] :=
    ⟨_, _, _, by rfl, by rfl, by rfl, by rfl, by rfl, by rfl, by rfl, List.cons_ne_nil _ _⟩
  have hown : t.StartsOwn := (halways.2 t hturn).now
  obtain ⟨_, hsizes, honly⟩ := hstate t hown op hop
  refine ⟨halways, t, op, run_cons_eq_ok.mpr ⟨t, hturn, rfl⟩, hop, hid, hsizes, .inr hsynced, ?_,
    honly (.inr hsynced)⟩
  refine (strays_fixRoute_iff (.inr hsynced) hop hvia hanswer hmissed hcopper).mpr ⟨2, rfl, ?_⟩
  rw [hid]
  nofun

/-- The board where the far pad has another net. -/
def foreignPad : Board :=
  { padsApart with
    items := [⟨1, .solid ⟨0, 0⟩ 100000, 1, LayerRange.single ⟨0⟩, false, none⟩,
      ⟨2, .solid ⟨5000000, 0⟩ 100000, 2, LayerRange.single ⟨1⟩, false, none⟩] }

/-- After a fix with the pointer on the foreign pad, the next head leaves from that. -/
theorem run_not_startsOwn :
    ¬ (launch foreignPad Options.standard [] true).Always StartsOwn (strayTurns.take 2) := by
  intro halways
  obtain ⟨t, op, hrun, hop, hboard, hstart, hnet⟩ :
      ∃ t op, (launch foreignPad Options.standard [] true).run (strayTurns.take 2) = .ok t ∧
        t.session.route? = some op ∧ t.board = foreignPad ∧
        op.startItem = some 2 ∧ op.net = 1 :=
    ⟨_, _, by rfl, by rfl, by rfl, by rfl, by rfl⟩
  obtain ⟨item, hitem, hsame, _⟩ := halways.last hrun op hop 2 hstart
  rw [hboard] at hitem
  cases hitem
  rw [hnet] at hsame
  cases hsame

end Tool

end CopperRoute
