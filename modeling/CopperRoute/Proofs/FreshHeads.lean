import CopperRoute.Proofs.HeadLayers
import CopperRoute.Proofs.InStep

/-!
# Heads that are out of date

The head that a route shows is an answer of the engine, which stays until the next one.  It is
**fresh** (`Tool.HeadFresh`) when the engine, asked again, would give this very head or none.
Whatever changes the question for the head or the world of the engine has to ask again, and
asking makes any head fresh.

Two commands do not see to that.

* A layer switch first takes the via at the head back.  When it then finds no way to another
  layer, it stops there, and the head is still drawn with the via (`Tool.LeavesViaDrawn`).
* Loading a board, also by choosing another pair of layers, does not ask.  That matters only
  while the engine works on another board than the tool (`Tool.LoadsUnasked`), which it never
  does during an intent when it did not at first.

So on a board that the engine knows, heads are fresh exactly as long as no via stays drawn
(`Tool.serve_headFresh_iff`).
-/

namespace CopperRoute

/-- A via that is taken back leaves the head drawn. -/
theorem RouteOp.head_withdrawVia (op : RouteOp) : op.withdrawVia.head = op.head := by
  unfold withdrawVia
  split <;> rfl

/-- The pair of layers for vias does not enter into the question for the head. -/
theorem RouteOp.request_usePair (op : RouteOp) (pair : LayerPair) :
    (op.usePair pair).request = op.request := by
  have hwidth : (op.usePair pair).sizes.trackWidth = op.sizes.trackWidth := by
    unfold usePair
    split
    · rfl
    · rfl
  have hsame := op.sameWay_usePair pair
  funext mode posture rounded
  unfold request
  rw [hwidth, hsame.start, hsame.startItem, hsame.layer, hsame.net]
  unfold usePair
  split <;> rfl

/-- Nor does it change the answer. -/
theorem World.route_withPair (b : Board) (pair : LayerPair) :
    World.route (some (b.withPair pair)) = World.route (some b) := rfl

namespace Tool

variable {t t' u : Tool} {c : Command} {op : RouteOp}

/-- **A fresh head**: when the engine answers the question for the head, then with the head
that is there. -/
def HeadFresh (t : Tool) : Prop :=
  ∀ op h g, t.session.route? = some op → op.head = some h →
    t.world.route (t.asks op) = .ok (.ok g) → h = g

theorem headFresh_of_none (hnone : t.session.route? = none) : t.HeadFresh := by
  intro op h g hop
  cases hnone.symm.trans hop

/-- Without a head there is nothing to be out of date. -/
theorem headFresh_of_bare (hbare : ∀ op, t.session.route? = some op → op.head = none) :
    t.HeadFresh := by
  intro op h g hop hhead
  cases (hbare op hop).symm.trans hhead

theorem HeadFresh.of_eq (ht : t.HeadFresh) (hworld : t'.world = t.world)
    (hroute : t'.session.route? = t.session.route?) (hasks : t'.asks = t.asks) :
    t'.HeadFresh := by
  intro op h g hop hhead hanswer
  rw [hworld, hasks] at hanswer
  exact ht op h g (hroute ▸ hop) hhead hanswer

/-- **Asking for the head** of a route draws the answer, or leaves the head as it is when there
is none. -/
theorem refreshHead_draws (hop : t.session.route? = some op) (h : t.refreshHead = .ok t') :
    t'.world = t.world ∧ t'.asks = t.asks ∧
      ((∃ g, t.world.route (t.asks op) = .ok (.ok g) ∧
          t'.session.route? = some { op with head := some g }) ∨
        ((∀ g, t.world.route (t.asks op) ≠ .ok (.ok g)) ∧ t'.session.route? = some op)) := by
  rw [refreshHead_running hop] at h
  obtain ⟨answer, hanswer, h⟩ := Checked.bind_eq_ok.mp h
  cases answer with
  | error e =>
      cases h
      refine ⟨rfl, rfl, .inr ⟨fun g hg => ?_, hop⟩⟩
      cases hanswer.symm.trans hg
  | ok g =>
      cases h
      refine ⟨rfl, asks_of_mapRoute rfl, .inl ⟨g, hanswer, ?_⟩⟩
      show (Session.mapRoute _ _).route? = _
      rw [Session.route?_mapRoute, hop, Option.map_some]

/-- That makes it fresh. -/
theorem refreshHead_headFresh (h : t.refreshHead = .ok t') : t'.HeadFresh := by
  cases hop : t.session.route? with
  | none =>
      have hrequest : t.session.request? = none := by rw [Session.request?, hop, Option.map_none]
      rw [refreshHead, hrequest] at h
      cases h
      exact headFresh_of_none hop
  | some op =>
      obtain ⟨hworld, hasks, hdrawn⟩ := refreshHead_draws hop h
      intro op' h' g' hop' hhead' hanswer'
      rw [hworld, hasks] at hanswer'
      rcases hdrawn with ⟨g, hanswer, hroute⟩ | ⟨hnone, hroute⟩
      · cases hroute.symm.trans hop'
        cases hhead'
        cases hanswer.symm.trans hanswer'
        rfl
      · cases hroute.symm.trans hop'
        exact absurd hanswer' (hnone g')

/-- **A layer switch that leads nowhere** when the via at the head has been taken back: it
names no other enabled layer, or the engine refuses the layer, or there is no via to it. -/
inductive LeadsNowhere (t : Tool) (op : RouteOp) (command : LayerCommand) : Prop
  | unresolved
      (hresolve : command.resolve op.withdrawVia.layer t.board.enabledLayers = none)
  | refused {layer : LayerId} {reason : LayerRefusal}
      (hresolve : command.resolve op.withdrawVia.layer t.board.enabledLayers = some layer)
      (hrefused : t.world.switchLayer (t.asks op.withdrawVia) layer = .refused reason)
  | illegal {layer : LayerId} {rejection : ViaRejection}
      (hresolve : command.resolve op.withdrawVia.layer t.board.enabledLayers = some layer)
      (hrequired : t.world.switchLayer (t.asks op.withdrawVia) layer = .viaRequired)
      (hillegal : Via.resolve ⟨op.withdrawVia.layer, some layer, .through⟩
        (ViaEnvironment.ofBoard t.board) = .error rejection)

/-- The commands that load a board without asking for the head, and the board. -/
inductive Loads (t : Tool) : Command → Board → Prop
  | synced : Loads t .syncWorld t.board
  | paired {pair : LayerPair} (hadmits : t.board.stackup.Admits pair) :
      Loads t (.selectLayerPair pair) (t.board.withPair pair)

/-- **A via stays drawn.**  A layer switch takes it back and leads nowhere, and the engine has
another head for the route without it. -/
inductive LeavesViaDrawn (t : Tool) : Command → Prop
  | mk {command : LayerCommand} {op : RouteOp} {h g : RouteGeometry}
      (hop : t.session.route? = some op) (hvia : op.via.isSome = true)
      (hnowhere : t.LeadsNowhere op command) (hhead : op.head = some h)
      (hanswer : t.world.route (t.asks op.withdrawVia) = .ok (.ok g)) (hother : h ≠ g) :
      LeavesViaDrawn t (.switchLayer command)

/-- **A board is loaded** on which the engine has another head for the running route, one that
it did not have before. -/
inductive LoadsUnasked (t : Tool) (c : Command) : Prop
  | mk {b : Board} {op : RouteOp} {h g : RouteGeometry} (hloads : t.Loads c b)
      (hop : t.session.route? = some op) (hhead : op.head = some h)
      (hanswer : World.route (some b) (t.asks op) = .ok (.ok g))
      (hnew : t.world.route (t.asks op) ≠ .ok (.ok g)) (hother : h ≠ g) : LoadsUnasked t c

/-- The commands behind which the head is out of date. -/
def Outdates (t : Tool) (c : Command) : Prop := t.LeavesViaDrawn c ∨ t.LoadsUnasked c

theorem LeadsNowhere.not_direct {command : LayerCommand} {layer : LayerId}
    (h : t.LeadsNowhere op command)
    (hresolve : command.resolve op.withdrawVia.layer t.board.enabledLayers = some layer) :
    t.world.switchLayer (t.asks op.withdrawVia) layer ≠ .direct := by
  intro hdirect
  cases h with
  | unresolved hnone => cases hresolve.symm.trans hnone
  | refused hother hrefused =>
      cases hresolve.symm.trans hother
      cases hdirect.symm.trans hrefused
  | illegal hother hrequired =>
      cases hresolve.symm.trans hother
      cases hdirect.symm.trans hrequired

theorem LeadsNowhere.not_legal {command : LayerCommand} {layer : LayerId} {v : ResolvedVia}
    (h : t.LeadsNowhere op command)
    (hresolve : command.resolve op.withdrawVia.layer t.board.enabledLayers = some layer)
    (hrequired : t.world.switchLayer (t.asks op.withdrawVia) layer = .viaRequired) :
    Via.resolve ⟨op.withdrawVia.layer, some layer, .through⟩ (ViaEnvironment.ofBoard t.board) ≠
      .ok v := by
  intro hlegal
  cases h with
  | unresolved hnone => cases hresolve.symm.trans hnone
  | refused hother hrefused =>
      cases hresolve.symm.trans hother
      cases hrequired.symm.trans hrefused
  | illegal hother _ hillegal =>
      cases hresolve.symm.trans hother
      cases hlegal.symm.trans hillegal

/-- **Placing a via** on a route without one hangs it to the head and asks for that, or there is
no such via and the route stays. -/
theorem placeVia_outcome {viaType : ViaType} {target : Option LayerId}
    (hop : t.session.route? = some op) (hnone : op.via = none)
    (h : t.placeVia viaType target = .ok t') :
    ((∃ rejection, Via.resolve ⟨op.layer, target, viaType⟩ (ViaEnvironment.ofBoard t.board) =
        .error rejection) ∧
        t'.world = t.world ∧ t'.session.route? = some op ∧ t'.asks = t.asks) ∨
      ∃ (v : ResolvedVia) (u : Tool),
        Via.resolve ⟨op.layer, target, viaType⟩ (ViaEnvironment.ofBoard t.board) = .ok v ∧
        u.world = t.world ∧ u.session.route? = some (op.hangVia t.board t.rules v) ∧
        u.asks = t.asks ∧ u.refreshHead = .ok t' := by
  have hroute : (t.mapSession fun s => { s with pendingViaTarget := none }).session.route? =
      some op := hop
  simp only [placeVia, toggleVia, hroute, hnone, Option.isSome_none, Bool.false_eq_true,
    if_false] at h
  split at h
  · next rejection hrejected =>
      cases h
      exact .inl ⟨⟨rejection, hrejected⟩, rfl, hop, rfl⟩
  · next v hlegal => refine .inr ⟨v, _, hlegal, ?_, ?_, ?_, h⟩ <;> rfl

/-- **What becomes of a layer switch** while a route runs. -/
inductive Switches (t : Tool) (op : RouteOp) (command : LayerCommand) (t' : Tool) : Prop
  /-- It leads nowhere, and only takes the via back. -/
  | nowhere (hnowhere : t.LeadsNowhere op command) (hworld : t'.world = t.world)
      (hroute : t'.session.route? = some op.withdrawVia) (hasks : t'.asks = t.asks)
  /-- The head goes on on another layer of the copper that it leaves from. -/
  | jumped {layer : LayerId} {u : Tool}
      (hresolve : command.resolve op.withdrawVia.layer t.board.enabledLayers = some layer)
      (hdirect : t.world.switchLayer (t.asks op.withdrawVia) layer = .direct)
      (hroute : u.session.route? = some { op.withdrawVia with layer := layer })
      (hrefreshed : u.refreshHead = .ok t')
  /-- A via is hung to the head. -/
  | hung {layer : LayerId} {v : ResolvedVia} {u : Tool}
      (hresolve : command.resolve op.withdrawVia.layer t.board.enabledLayers = some layer)
      (hrequired : t.world.switchLayer (t.asks op.withdrawVia) layer = .viaRequired)
      (hlegal : Via.resolve ⟨op.withdrawVia.layer, some layer, .through⟩
        (ViaEnvironment.ofBoard t.board) = .ok v)
      (hworld : u.world = t.world)
      (hroute : u.session.route? = some (op.withdrawVia.hangVia t.board t.rules v))
      (hasks : u.asks = t.asks) (hrefreshed : u.refreshHead = .ok t')

theorem switchLayer_switches {command : LayerCommand} (hop : t.session.route? = some op)
    (h : t.switchLayer command = .ok t') : t.Switches op command t' := by
  have hroute : (t.mapSession Session.withdrawVia).session.route? = some op.withdrawVia := by
    rw [mapSession, Session.route?_withdrawVia, hop, Option.map_some]
  have hrequest : (t.mapSession Session.withdrawVia).session.request? =
      some (t.asks op.withdrawVia) := by
    rw [← asks_withdrawVia]
    exact request?_running hroute
  simp only [switchLayer, goToLayer, hrequest, hroute, Option.map_some, Option.getD_some] at h
  have hboard : (t.mapSession Session.withdrawVia).board = t.board := rfl
  have hworld : (t.mapSession Session.withdrawVia).world = t.world := rfl
  rw [hboard] at h
  cases hresolve : command.resolve op.withdrawVia.layer t.board.enabledLayers with
  | none =>
      rw [hresolve] at h
      cases h
      exact .nowhere (.unresolved hresolve) rfl hroute t.asks_withdrawVia
  | some layer =>
      rw [hresolve] at h
      simp only [routeToLayer, hworld] at h
      cases hswitch : t.world.switchLayer (t.asks op.withdrawVia) layer with
      | direct =>
          rw [hswitch] at h
          refine .jumped hresolve hswitch ?_ h
          show (Session.mapRoute _ _).route? = _
          rw [Session.route?_mapRoute, hroute, Option.map_some]
      | refused reason =>
          rw [hswitch] at h
          cases h
          exact .nowhere (.refused hresolve hswitch) rfl hroute t.asks_withdrawVia
      | viaRequired =>
          rw [hswitch] at h
          rcases placeVia_outcome hroute op.via_withdrawVia h with
            ⟨⟨rejection, hillegal⟩, hworld', hroute', hasks⟩ |
            ⟨v, u, hlegal, hworld', hroute', hasks, hrefreshed⟩
          · exact .nowhere (.illegal hresolve hswitch hillegal) hworld' hroute'
              (hasks.trans t.asks_withdrawVia)
          · exact .hung hresolve hswitch hlegal hworld' hroute' (hasks.trans t.asks_withdrawVia)
              hrefreshed

/-- A size command asks for the head when it is not rejected. -/
theorem redesigns_headFresh {change : Design → Design} {refusal : Option CommandRefusal}
    (hc : c.Redesigns change) (ht : t.HeadFresh) (h : t.execute c = .ok (t', refusal)) :
    t'.HeadFresh := by
  rcases execute_redesigns hc with ⟨_, e, hrejected⟩ | ⟨_, hchanges⟩
  · cases (hrejected t).symm.trans h
    exact ht.of_eq rfl rfl rfl
  · rw [hchanges t] at h
    exact refreshHead_headFresh (Checked.of_tagged h)

/-- After a fix the head is fresh. -/
theorem fixRoute_headFresh {p : Point} {id : Option ItemId} {finish : Bool}
    (h : t.fixRoute p id finish = .ok t') : t'.HeadFresh := by
  obtain ⟨u, hmove, houtcome⟩ := fixRoute_eq_ok h
  have hmoved : u.HeadFresh := refreshHead_headFresh hmove
  cases houtcome with
  | idle _ hsame | bare _ _ _ hsame =>
      rw [hsame]
      exact hmoved
  | unsolved _ _ hreported =>
      rw [hreported]
      exact hmoved.of_eq rfl rfl rfl
  | finished _ _ _ hfinish =>
      obtain ⟨⟨r, v⟩, hcommit, hfinish⟩ := Checked.bind_eq_ok.mp hfinish
      cases r with
      | ok report =>
          cases hfinish
          exact headFresh_of_none (Session.route?_of_none (Session.operation_finished _ _))
      | error reason =>
          cases hfinish
          obtain ⟨rfl, _⟩ := commit_refused hcommit
          exact hmoved.of_eq rfl rfl rfl
  | @extended r g _ _ _ _ _ hextended =>
      rw [hextended]
      refine headFresh_of_bare fun op' hop' => ?_
      obtain ⟨op, _, rfl⟩ :=
        Option.map_eq_some_iff.mp ((Session.route?_extendRoute _ _).symm.trans hop')
      rfl

/-- After a via is hung on or taken back the head is fresh. -/
theorem placeVia_headFresh {viaType : ViaType} {target : Option LayerId} (ht : t.HeadFresh)
    (h : t.placeVia viaType target = .ok t') : t'.HeadFresh := by
  unfold placeVia toggleVia at h
  split at h
  · cases h
    exact ht.of_eq rfl rfl rfl
  · split at h
    · exact refreshHead_headFresh h
    · split at h
      · cases h
        exact ht.of_eq rfl rfl rfl
      · exact refreshHead_headFresh h

/-- A layer switch leaves the head fresh, unless a via stays drawn. -/
theorem switchLayer_headFresh {command : LayerCommand} (ht : t.HeadFresh)
    (hgood : ¬ t.LeavesViaDrawn (.switchLayer command)) (h : t.switchLayer command = .ok t') :
    t'.HeadFresh := by
  cases hop : t.session.route? with
  | none =>
      intro op' _ _ hop'
      cases switchLayer_derives hop' h with
      | began hcommand => cases hcommand
      | altered hop₂ => cases hop.symm.trans hop₂
  | some op =>
      cases switchLayer_switches hop h with
      | nowhere hnowhere hworld hroute hasks =>
          intro op' h' g hop' hhead hanswer
          cases hroute.symm.trans hop'
          rw [hworld, hasks] at hanswer
          rw [RouteOp.head_withdrawVia] at hhead
          by_cases hvia : op.via = none
          · rw [RouteOp.withdrawVia_of_none hvia] at hanswer
            exact ht op h' g hop hhead hanswer
          · by_contra hother
            have hsome : op.via.isSome = true := Option.isSome_iff_ne_none.mpr hvia
            exact hgood ⟨hop, hsome, hnowhere, hhead, hanswer, hother⟩
      | jumped _ _ _ hrefreshed | hung _ _ _ _ _ _ hrefreshed =>
          exact refreshHead_headFresh hrefreshed

/-- Loading a board leaves the head fresh, unless the engine has another one on it. -/
theorem Loads.headFresh {b : Board} (hloads : t.Loads c b) (ht : t.HeadFresh)
    (hgood : ¬ t.LoadsUnasked c) (hworld : t'.world = some b)
    (hroute : ∀ op', t'.session.route? = some op' → ∃ op, t.session.route? = some op ∧
      op'.head = op.head ∧ t'.asks op' = t.asks op) : t'.HeadFresh := by
  intro op' h g hop' hhead hanswer
  obtain ⟨op, hop, hsame, hasks⟩ := hroute op' hop'
  rw [hworld, hasks] at hanswer
  rw [hsame] at hhead
  by_contra hother
  refine hgood ⟨hloads, hop, hhead, hanswer, fun hbefore => ?_, hother⟩
  exact hother (ht op h g hop hhead hbefore)

theorem selectLayerPair_headFresh {pair : LayerPair} (ht : t.HeadFresh)
    (hgood : ¬ t.LoadsUnasked (.selectLayerPair pair)) :
    (t.selectLayerPair pair).HeadFresh := by
  by_cases hadmits : t.board.stackup.Admits pair
  · rw [selectLayerPair_of_admits hadmits]
    refine (Loads.paired hadmits).headFresh ht hgood rfl fun op' hop' => ?_
    obtain ⟨op, hop, rfl⟩ :=
      Option.map_eq_some_iff.mp ((Session.route?_mapRoute _ _).symm.trans hop')
    refine ⟨op, hop, ?_, ?_⟩
    · unfold RouteOp.usePair
      split <;> rfl
    · rw [asks_of_mapRoute (t := t) rfl]
      simp only [asks, op.request_usePair pair]
  · rw [selectLayerPair_of_not_admits hadmits]
    exact ht.of_eq rfl rfl rfl

/-- What needs an idle session leaves no route running, or does nothing. -/
theorem Orderly.headFresh_of_idle (horderly : t.Orderly) (ht : t.HeadFresh)
    (h : t' = t ∨ (t.session.isIdle = true ∧ t'.session = t.session)) : t'.HeadFresh := by
  rcases h with rfl | ⟨hidle, hsession⟩
  · exact ht
  · refine headFresh_of_none ?_
    rw [hsession]
    exact Session.route?_of_none (horderly.operation_of_idle hidle)

/-- **Every other command** leaves the head fresh. -/
theorem execute_headFresh {refusal : Option CommandRefusal} (horderly : t.Orderly)
    (ht : t.HeadFresh) (hgood : ¬ t.Outdates c) (h : t.execute c = .ok (t', refusal)) :
    t'.HeadFresh := by
  obtain ⟨hleaves, hloads⟩ := not_or.mp hgood
  cases c with
  | startRouting p id =>
      refine headFresh_of_bare fun op' hop' => ?_
      obtain ⟨u, _, hopens, _⟩ := startRouting_began horderly hop' (Checked.of_tagged h)
      rw [hopens.fresh]
      rfl
  | moveHead p id ortho => exact refreshHead_headFresh (Checked.of_tagged h)
  | fixRoute p id finish => exact fixRoute_headFresh (Checked.of_tagged h)
  | undoLastSegment =>
      have hundone : t.undoLastSegment = .ok t' := Checked.of_tagged h
      unfold undoLastSegment at hundone
      split at hundone
      · cases hundone
        exact ht
      · exact refreshHead_headFresh hundone
  | placeVia viaType target => exact placeVia_headFresh ht (Checked.of_tagged h)
  | switchLayer command => exact switchLayer_headFresh ht hleaves (Checked.of_tagged h)
  | flipPosture | toggleRounding => exact refreshHead_headFresh (Checked.of_tagged h)
  | setRouterMode mode =>
      have hset : t.setRouterMode mode = .ok t' := Checked.of_tagged h
      unfold setRouterMode at hset
      split at hset
      · cases hset
        exact ht
      · exact refreshHead_headFresh hset
  | setCustomTrackWidth width => exact redesigns_headFresh (.trackWidth width) ht h
  | setCustomViaSize diameter drill => exact redesigns_headFresh (.viaSize diameter drill) ht h
  | setDiffPair width gap viaGap => exact redesigns_headFresh (.diffPair width gap viaGap) ht h
  | useNetClassSizes => exact redesigns_headFresh .netClasses ht h
  | selectLayerPair pair =>
      cases h
      exact selectLayerPair_headFresh ht hloads
  | syncWorld =>
      cases h
      exact Loads.synced.headFresh ht hloads rfl fun op' hop' => ⟨op', hop', rfl, rfl⟩
  | clearWorld =>
      cases h
      intro op' _ _ _ _ hanswer
      cases hanswer
  | startDrag ids anchor mode =>
      exact headFresh_of_none (startDrag_route? horderly (Checked.of_tagged h))
  | startFootprintDrag id anchor mode =>
      exact headFresh_of_none (startFootprintDrag_route? horderly (Checked.of_tagged h))
  | moveDrag p =>
      rcases moveDrag_route? (Checked.of_tagged h) with ⟨hnone, _⟩ | rfl
      · exact headFresh_of_none hnone
      · exact ht.of_eq rfl rfl rfl
  | fixDrag =>
      rcases fixDrag_route? (Checked.of_tagged h) with hnone | rfl
      · exact headFresh_of_none hnone
      · exact ht
  | cancelOperation =>
      exact headFresh_of_none (cancelOperation_route? horderly (Checked.of_tagged h))
  | breakTrack p => exact horderly.headFresh_of_idle ht (breakTrack_session (Checked.of_tagged h))
  | undo =>
      have hundo := t.undo_session
      rw [Checked.pure_eq_ok.mp h] at hundo
      exact horderly.headFresh_of_idle ht hundo
  | redo =>
      have hredo := t.redo_session
      rw [Checked.pure_eq_ok.mp h] at hredo
      exact horderly.headFresh_of_idle ht hredo
  | requestViaTarget | trackCursor | resetSession =>
      cases h
      exact ht.of_eq rfl rfl rfl

/-- **The bad commands** leave a head that is out of date. -/
theorem Outdates.not_headFresh {refusal : Option CommandRefusal} (hbad : t.Outdates c)
    (h : t.execute c = .ok (t', refusal)) : ¬ t'.HeadFresh := by
  intro hfresh
  rcases hbad with ⟨hop, hvia, hnowhere, hhead, hanswer, hother⟩ |
    ⟨hloads, hop, hhead, hanswer, hnew, hother⟩
  · cases switchLayer_switches hop (Checked.of_tagged h) with
    | nowhere _ hworld hroute hasks =>
        refine hother (hfresh _ _ _ hroute ?_ ?_)
        · rw [RouteOp.head_withdrawVia]
          exact hhead
        · rw [hworld, hasks]
          exact hanswer
    | jumped hresolve hdirect => exact hnowhere.not_direct hresolve hdirect
    | hung hresolve hrequired hlegal => exact hnowhere.not_legal hresolve hrequired hlegal
  · cases hloads with
    | synced =>
        cases h
        exact hother (hfresh _ _ _ hop hhead hanswer)
    | @paired pair hadmits =>
        cases h
        rw [selectLayerPair_of_admits hadmits] at hfresh
        refine hother (hfresh _ _ _ ((Session.route?_mapRoute _ _).trans (congrArg _ hop)) ?_ ?_)
        · unfold RouteOp.usePair
          split <;> exact hhead
        · rw [asks_of_mapRoute (t := t) rfl]
          simp only [asks, RouteOp.request_usePair]
          exact hanswer

/-- The engine works on no other board, and while a route runs, it has one. -/
structure Informed (t : Tool) : Prop where
  known : ∀ b, t.world = some b → b = t.board
  attached : t.Attached

/-- **What an informed engine has loaded** is what it had. -/
theorem Informed.not_loadsUnasked (ht : t.Informed) : ¬ t.LoadsUnasked c := by
  rintro ⟨hloads, hop, _, hanswer, hnew, _⟩
  cases hworld : t.world with
  | none => exact ht.attached _ hop hworld
  | some b =>
      rw [hworld, ht.known b hworld] at hnew
      cases hloads with
      | synced => exact hnew hanswer
      | paired =>
          rw [World.route_withPair] at hanswer
          exact hnew hanswer

theorem Informed.executed {refusal : Option CommandRefusal} (horderly : t.Orderly)
    (ht : t.Informed) (hc : ¬ c.PullsApart) (h : t.execute c = .ok (t', refusal)) :
    t'.Informed := by
  refine ⟨fun b hb => ?_, execute_attached horderly hc ht.attached h⟩
  cases (execute_changes horderly h).boards.way with
  | kept hboard _ hworld =>
      rw [hworld] at hb
      rw [hboard]
      exact ht.known b hb
  | loaded _ _ _ hworld | committed _ _ _ hworld =>
      exact (Option.some.inj (hworld.symm.trans hb)).symm
  | unloaded _ _ _ hcommand => exact absurd (hcommand ▸ .clearWorld) hc
  | undone _ _ hcommand _ => exact absurd (hcommand ▸ .undo) hc
  | redone _ _ hcommand _ => exact absurd (hcommand ▸ .redo) hc

/-- On an idle tool in step with its engine, that is informed. -/
theorem Orderly.informed_of_idle (horderly : t.Orderly) (hidle : t.session.isIdle = true)
    (hworld : t.world = some t.board) : t.Informed := by
  refine ⟨fun b hb => Option.some.inj (hb.symm.trans hworld), fun op hop => ?_⟩
  cases (horderly.busy hop).symm.trans hidle

/-- **A tool whose engine has no other board** keeps it so, except while it steps through the
history, when nothing runs. -/
theorem serving_avoids_of_informed {bad : Tool → Command → Prop}
    (hgood : ∀ t c, t.Informed → ¬ bad t c)
    (hcalm : ∀ t c, t.session.operation = .none → ¬ bad t c)
    (horderly : t.Orderly) (ht : t.Informed) (os : List Occasion) :
    t.Serving (Avoids bad) os := by
  refine serving_avoids_of_kept (J := Orderly) (I := Informed) (fun _ ht => ht)
    (fun t o horderly ht => ⟨horderly.prompted o, ht.known, ht.attached⟩)
    (fun t k t' ht hturn => (turn_advances ht hturn).orderly)
    (fun t c u refusal hc horderly ht hhandle => ?_) (fun t ht => ht.informed_of_idle)
    (fun t c _ _ ht => hgood _ c ⟨ht.known, ht.attached⟩)
    (fun t c _ horderly hidle => hcalm _ c (horderly.operation_of_idle hidle)) horderly ht os
  exact Informed.executed (t := { t with log := t.log.record c }) (horderly.logged c)
    ⟨ht.known, ht.attached⟩ hc hhandle

/-- It never loads a board that matters. -/
theorem serving_loadsNothing (horderly : t.Orderly) (ht : t.Informed) (os : List Occasion) :
    t.Serving (Avoids LoadsUnasked) os := by
  refine serving_avoids_of_informed (fun _ _ ht => ht.not_loadsUnasked) (fun t c hnone => ?_)
    horderly ht os
  rintro ⟨_, hop, _⟩
  cases (Session.route?_of_none hnone).symm.trans hop

/-- **Heads are fresh** throughout a service exactly when no command is bad; and when the engine
knows no other board at first, exactly when no via stays drawn. -/
theorem serve_headFresh_iff (board : Board) (world : World) (options : Options)
    (rules : RuleSet) (search : TreeSearch) (confirms : Bool) (os : List Occasion) :
    ((new board world options rules search confirms).Serving (Always HeadFresh) os ↔
        (new board world options rules search confirms).Serving (Avoids Outdates) os) ∧
      ((∀ b, world = some b → b = board) →
        ((new board world options rules search confirms).Serving (Always HeadFresh) os ↔
          (new board world options rules search confirms).Serving (Avoids LeavesViaDrawn) os)) := by
  have horderly := orderly_new board world options rules search confirms
  have hiff : (new board world options rules search confirms).Serving (Always HeadFresh) os ↔
      (new board world options rules search confirms).Serving (Avoids Outdates) os := by
    refine serving_always_iff_avoids (J := fun t => t.Orderly ∧ t.HeadFresh)
      (fun t o ht => ⟨ht.1.prompted o, ht.2⟩) (fun t k t' ht hgood hturn => ?_)
      (fun _ ht => ht.2) (fun t k t' _ hturn hfresh hbad => ?_)
      ⟨horderly, headFresh_of_none rfl⟩
    · obtain ⟨refusal, hexecute⟩ := turn_eq_ok.mp hturn
      exact ⟨(turn_advances ht.1 hturn).orderly,
        execute_headFresh (ht.1.ready k) ht.2 hgood hexecute⟩
    · obtain ⟨refusal, hexecute⟩ := turn_eq_ok.mp hturn
      exact hbad.not_headFresh hexecute hfresh
  refine ⟨hiff, fun hknown => hiff.trans ⟨fun havoids => ?_, fun havoids => ?_⟩⟩
  · exact havoids.weaken fun _ _ h => h.mono fun _ _ => .inl
  · have hinformed : (new board world options rules search confirms).Informed :=
      ⟨hknown, fun op hop => by cases hop⟩
    exact havoids.and (fun _ _ h h' => h.or h') (serving_loadsNothing horderly hinformed os)

/-- A via is hung to a head, and then a switch to a layer is asked for. -/
def viaSwitch (command : LayerCommand) : List Occasion :=
  [⟨.click ⟨0, 0⟩ false false, true, false⟩, ⟨.placeVia .through none, true, false⟩,
    ⟨.switchLayer command, true, false⟩]

/-- A switch to the layer behind the via hangs another one, with a new head. -/
theorem serve_headFresh_bottom :
    (∀ b, (some Board.standard : World) = some b → b = Board.standard) ∧
      (launch Board.standard Options.standard [] true).Serving
        (Avoids LeavesViaDrawn) (viaSwitch .bottom) ∧
      (launch Board.standard Options.standard [] true).Serving
        (Always HeadFresh) (viaSwitch .bottom) := by
  have hknown : ∀ b, (some Board.standard : World) = some b → b = Board.standard :=
    fun b hb => (Option.some.inj hb).symm
  have havoids : (launch Board.standard Options.standard [] true).Serving
      (Avoids LeavesViaDrawn) (viaSwitch .bottom) := by
    refine serving_avoids_cons (c := .startRouting ⟨0, 0⟩ none) (by rfl) nofun ?_
    refine serving_avoids_cons (c := .placeVia .through none) (by rfl) nofun ?_
    refine serving_avoids_cons (c := .switchLayer .bottom) (by rfl) ?_ trivial
    rintro ⟨hop, _, hnowhere, _, _, _⟩
    cases hop
    cases hnowhere with
    | unresolved hresolve => cases hresolve
    | refused hresolve hrefused =>
        cases hresolve
        cases hrefused
    | illegal hresolve _ hillegal =>
        cases hresolve
        cases hillegal
  exact ⟨hknown, havoids, ((serve_headFresh_iff Board.standard (some Board.standard)
    Options.standard _ _ true (viaSwitch .bottom)).2 hknown).mpr havoids⟩

/-- A switch to the layer of the head only takes the via back, and the head still ends with it. -/
theorem serve_not_headFresh :
    ¬ (launch Board.standard Options.standard [] true).Serving
      (Always HeadFresh) (viaSwitch .top) := by
  intro halways
  obtain ⟨t, op, h, g, hserve, hop, hhead, hanswer, hdrawn, hanswered⟩ : ∃ t op h g,
      (launch Board.standard Options.standard [] true).serve (viaSwitch .top) = .ok t ∧
        t.session.route? = some op ∧ op.head = some h ∧
        t.world.route (t.asks op) = .ok (.ok g) ∧ h.items.length = 1 ∧ g.items.length = 0 :=
    ⟨_, _, _, _, by rfl, by rfl, by rfl, by rfl, by rfl, by rfl⟩
  have hsame := halways.last hserve op h g hop hhead hanswer
  rw [hsame, hanswered] at hdrawn
  cases hdrawn

end Tool

end CopperRoute
