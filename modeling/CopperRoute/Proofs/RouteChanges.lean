import CopperRoute.Proofs.RouteWays

/-!
# What commands do to a route

A command that does not keep the way of the running route changes it by one of a few
functions of the route, which `Tool.Rerouting` lists with the reasons for which a
command may use them.  A few more commands keep the way, but settle other sizes
(`Tool.Alters`).

`execute_derives` is the one place where commands are opened to see this.  A route
that runs after a command was either begun by it, or is the route from before,
changed in one of these ways and with another head.  `execute_reroutes` says the same
of the way of the route alone; the items of the board are then the same as before.
-/

namespace CopperRoute

namespace Tool

/-- The question that the session asks for the head of a route. -/
def asks (t : Tool) (op : RouteOp) : RouteRequest :=
  op.request t.session.mode t.session.posture t.session.rounded

/-- Without the via at its head, the session asks in the same manner. -/
theorem asks_withdrawVia (t : Tool) : (t.mapSession Session.withdrawVia).asks = t.asks := by
  funext op
  simp only [asks, mapSession, Session.withdrawVia_mode, Session.withdrawVia_posture,
    Session.withdrawVia_rounded]

/-- A change of the route does not change how the session asks. -/
theorem asks_of_mapRoute {t t' : Tool} {f : RouteOp → RouteOp}
    (h : t'.session = t.session.mapRoute f) : t'.asks = t.asks := by
  funext op
  simp only [asks, h, Session.mapRoute_mode, Session.mapRoute_posture, Session.mapRoute_rounded]

/-- A running route asks the engine for its head. -/
theorem request?_running {t : Tool} {op : RouteOp} (hop : t.session.route? = some op) :
    t.session.request? = some (t.asks op) := by
  rw [Session.request?, hop]
  rfl

/-- While a route runs, asking for the head is asking the engine this question. -/
theorem refreshHead_running {t : Tool} {op : RouteOp} (hop : t.session.route? = some op) :
    t.refreshHead = do
      match ← t.world.route (t.asks op) with
      | .ok g => return t.drawHead g
      | .error _ => return t := by
  rw [refreshHead, request?_running hop]
  rfl

/-- The commands that take back a via that hangs at the head. -/
inductive TakesViaBack : Command → Prop
  | placeVia (viaType : ViaType) (target : Option LayerId) :
      TakesViaBack (.placeVia viaType target)
  | switchLayer (command : LayerCommand) : TakesViaBack (.switchLayer command)

/-- **Ways that a command can change** the running route to. -/
inductive Rerouting (t : Tool) (op : RouteOp) : Command → RouteOp → Prop
  | kept (c : Command) : Rerouting t op c op
  /-- A head that reaches no target becomes a step. -/
  | extended {p : Point} {id : Option ItemId} {g : RouteGeometry}
      (hanswer : t.world.route (t.asks (op.aim p id op.ortho)) = .ok (.ok g))
      (hmissed : g.reachedTarget = false) (hcopper : g.items ≠ []) :
      Rerouting t op (.fixRoute p id false) ((op.aim p id op.ortho).pushStep g)
  | undone {op' : RouteOp} (hundo : op.undoStep = some op') : Rerouting t op .undoLastSegment op'
  | withdrawn {c : Command} (htakes : TakesViaBack c) : Rerouting t op c op.withdrawVia
  | hung {viaType : ViaType} {target : Option LayerId} {v : ResolvedVia} (hnone : op.via = none)
      (hlegal : Via.resolve ⟨op.layer, target, viaType⟩ (ViaEnvironment.ofBoard t.board) = .ok v) :
      Rerouting t op (.placeVia viaType target) (op.hangVia t.board t.rules v)
  /-- The head goes on on another layer of the copper that it leaves from. -/
  | jumped {command : LayerCommand} {layer : LayerId}
      (hresolve : command.resolve op.withdrawVia.layer t.board.enabledLayers = some layer)
      (hdirect : t.world.switchLayer (t.asks op.withdrawVia) layer = .direct) :
      Rerouting t op (.switchLayer command) { op.withdrawVia with layer := layer }
  | hungBelow {command : LayerCommand} {viaType : ViaType} {target : Option LayerId}
      {v : ResolvedVia}
      (hlegal : Via.resolve ⟨op.withdrawVia.layer, target, viaType⟩
        (ViaEnvironment.ofBoard t.board) = .ok v) :
      Rerouting t op (.switchLayer command) (op.withdrawVia.hangVia t.board t.rules v)

/-- **What a command can make** of the running route and of the board under it, the head
left aside. -/
inductive Alters (t : Tool) (op : RouteOp) : Command → RouteOp → Board → Prop
  | rerouted {c : Command} {way : RouteOp} (hchange : Rerouting t op c way) :
      Alters t op c way t.board
  /-- Another pair of layers was chosen for vias. -/
  | paired {pair : LayerPair} :
      Alters t op (.selectLayerPair pair) (op.usePair pair)
        (t.board.redesign fun d => { d with routeLayerPair := some pair })
  /-- Sizes were set. -/
  | renewed {c : Command} {change : Design → Design} (hredesigns : c.Redesigns change) :
      Alters t op c (op.renewSizes (t.board.redesign change) t.rules) (t.board.redesign change)

/-- A route that a command can begin, on copper that the board may know, when the engine
accepts its start. -/
structure Opens (t : Tool) (p : Point) (id : Option ItemId) (op : RouteOp) : Prop where
  fresh : op = RouteOp.new (startNet (id.bind t.board.item?)) op.start id
    (startLayer t.session (id.bind t.board.item?))
    (t.startSizes (id.bind t.board.item?) (startLayer t.session (id.bind t.board.item?)))
  start : t.startPoint p (id.bind t.board.item?) = .ok op.start
  copper : t.board.stackup.contains op.layer = true
  accepted : t.world.startRefusal? op.start id op.layer op.sizes = .ok none

/-- **Where the running route comes from**: the command began it, or made it of the one
that ran before. -/
inductive Derives (t : Tool) (c : Command) (t' : Tool) (op' : RouteOp) : Prop
  | began {p : Point} {id : Option ItemId} {u : Tool} (hcommand : c = .startRouting p id)
      (hidle : t.makeIdle = .ok u) (hopens : u.Opens p id op') (hboard : t'.board = u.board)
  | altered {op way : RouteOp} {board : Board} (hop : t.session.route? = some op)
      (halters : t.Alters op c way board) (hsame : way.Redraws op') (hboard : t'.board = board)

/-- **Which way the running route comes**: the command began it, or changed the way of the
one that ran before and left the copper on the board alone. -/
inductive Reroutes (t : Tool) (c : Command) (t' : Tool) (op' : RouteOp) : Prop
  | began {p : Point} {id : Option ItemId} {u : Tool} (hcommand : c = .startRouting p id)
      (hidle : t.makeIdle = .ok u) (hopens : u.Opens p id op') (hboard : t'.board = u.board)
  | changed {op way : RouteOp} (hop : t.session.route? = some op)
      (hchange : t.Rerouting op c way) (hsame : way.SameWay op')
      (hitems : t'.board.items = t.board.items)

/-- Where a route comes from shows which way it comes. -/
theorem Derives.reroutes {t t' : Tool} {c : Command} {op' : RouteOp} (h : t.Derives c t' op') :
    t.Reroutes c t' op' := by
  cases h with
  | began hcommand hidle hopens hboard => exact .began hcommand hidle hopens hboard
  | @altered op way board hop halters hsame hboard =>
      have hitems : board.items = t.board.items := by cases halters <;> rfl
      rw [← hboard] at hitems
      cases halters with
      | rerouted hchange => exact .changed hop hchange hsame.sameWay hitems
      | paired =>
          exact .changed hop (.kept _) ((op.sameWay_usePair _).trans hsame.sameWay) hitems
      | renewed =>
          exact .changed hop (.kept _) ((op.sameWay_renewSizes _ _).trans hsame.sameWay) hitems

/-- A route that only got another head is derived from the one before. -/
theorem KeepsRoute.derives {t t' : Tool} {c : Command} {op' : RouteOp} (h : t.KeepsRoute t')
    (hop' : t'.session.route? = some op') : t.Derives c t' op' := by
  obtain ⟨op, hop, hsame⟩ := h.route op' hop'
  exact .altered hop (.rerouted (.kept c)) hsame h.board

/-- A command that alters the route first and then keeps it. -/
theorem KeepsRoute.derives_of_altered {t u t' : Tool} {c : Command} {op way op' : RouteOp}
    (h : u.KeepsRoute t') (hop' : t'.session.route? = some op') (hop : t.session.route? = some op)
    (hway : u.session.route? = some way) (halters : t.Alters op c way u.board) :
    t.Derives c t' op' := by
  obtain ⟨way', hway', hsame⟩ := h.route op' hop'
  rw [hway] at hway'
  cases hway'
  exact .altered hop halters hsame h.board

/-- A route that has begun is one that the engine accepted. -/
theorem openRoute_opens {t t' : Tool} {p : Point} {id : Option ItemId} {op' : RouteOp}
    (hnone : t.session.operation = .none) (hop' : t'.session.route? = some op')
    (hcopper : t.board.stackup.contains (startLayer t.session (id.bind t.board.item?)) = true)
    (h : (t.prepareStart p).openRoute p id (id.bind t.board.item?)
      (startLayer t.session (id.bind t.board.item?)) = .ok t') :
    t.Opens p id op' ∧ t'.board = t.board := by
  simp only [openRoute] at h
  obtain ⟨start, hstart, h⟩ := Checked.bind_eq_ok.mp h
  obtain ⟨refusal, hrefusal, h⟩ := Checked.bind_eq_ok.mp h
  cases refusal with
  | some reason =>
      cases h
      cases (Session.route?_of_none hnone).symm.trans hop'
  | none =>
      cases h
      cases hop'
      have hsame : t.startPoint p (id.bind t.board.item?) = .ok start := by
        rw [← hstart]
        cases id.bind t.board.item? <;> rfl
      exact ⟨⟨rfl, hsame, hcopper, hrefusal⟩, rfl⟩

/-- A route that runs after a start was begun by it. -/
theorem startRouting_began {t t' : Tool} {p : Point} {id : Option ItemId} {op' : RouteOp}
    (ht : t.Orderly) (hop' : t'.session.route? = some op') (h : t.startRouting p id = .ok t') :
    ∃ u, t.makeIdle = .ok u ∧ u.Opens p id op' ∧ t'.board = u.board := by
  obtain ⟨u, hidle, h⟩ := Checked.bind_eq_ok.mp h
  have hnone := (makeIdle_advances ht hidle).2
  simp only at h
  split at h
  · next hcopper =>
      obtain ⟨hopens, hboard⟩ := openRoute_opens hnone hop' hcopper h
      exact ⟨u, hidle, hopens, hboard⟩
  · cases h
    cases (Session.route?_of_none hnone).symm.trans hop'

/-- **Starting a route** begins it once the tool is idle. -/
theorem startRouting_derives {t t' : Tool} {p : Point} {id : Option ItemId} {op' : RouteOp}
    (ht : t.Orderly) (hop' : t'.session.route? = some op') (h : t.startRouting p id = .ok t') :
    t.Derives (.startRouting p id) t' op' := by
  obtain ⟨u, hidle, hopens, hboard⟩ := startRouting_began ht hop' h
  exact .began rfl hidle hopens hboard

/-- Moving the head asks the engine about the aimed route, and fixing what it answers
does not depend on the head that was drawn. -/
theorem moveHead_aims {t u : Tool} {p : Point} {id : Option ItemId} {ortho : Bool}
    (h : t.moveHead p id ortho = .ok u) :
    u.world = t.world ∧ u.board = t.board ∧ ∃ f : RouteOp → RouteOp,
      u.session.route? = t.session.route?.map f ∧
        (∀ op, u.asks (f op) = t.asks (op.aim p id ortho)) ∧
          ∀ op g, (f op).pushStep g = (op.aim p id ortho).pushStep g := by
  rcases refreshHead_eq_ok h with rfl | ⟨g, rfl⟩
  · refine ⟨rfl, rfl, fun op => op.aim p id ortho, ?_, fun op => ?_, fun op g => rfl⟩
    · exact Session.route?_mapRoute _ _
    · simp [asks, mapSession]
  · refine ⟨rfl, rfl, fun op => { op.aim p id ortho with head := some g }, ?_, fun op => ?_,
      fun op g => rfl⟩
    · simp [drawHead, mapSession]
      rfl
    · simp [asks, drawHead, mapSession]
      rfl

/-- After the head was moved, the session asks about the aimed route. -/
theorem moveHead_request? {t u : Tool} {p : Point} {id : Option ItemId} {op : RouteOp}
    (hop : t.session.route? = some op)
    (h : t.moveHead p id ((t.session.route?.map RouteOp.ortho).getD false) = .ok u) :
    u.world = t.world ∧ u.board = t.board ∧
      u.session.request? = some (t.asks (op.aim p id op.ortho)) ∧
        ∀ g, (u.session.extendRoute g).route? = some ((op.aim p id op.ortho).pushStep g) := by
  obtain ⟨hworld, hboard, f, hroute, hasks, hpush⟩ := moveHead_aims h
  have hortho : (t.session.route?.map RouteOp.ortho).getD false = op.ortho := by
    rw [hop]
    rfl
  rw [hop, Option.map_some] at hroute
  rw [hortho] at hasks hpush
  refine ⟨hworld, hboard, ?_, fun g => ?_⟩
  · rw [request?_running hroute, hasks]
  · rw [Session.route?_extendRoute, hroute, Option.map_some, hpush]

/-- When the engine accepts the start, the route runs. -/
theorem startRouting_opens {t u t' : Tool} {p : Point} {id : Option ItemId} {op : RouteOp}
    (hidle : t.makeIdle = .ok u) (hopens : u.Opens p id op) (h : t.startRouting p id = .ok t') :
    t'.session.route? = some op ∧ t'.board = u.board := by
  have hlayer : op.layer = startLayer u.session (id.bind u.board.item?) := by rw [hopens.fresh]; rfl
  have hsizes : op.sizes = u.startSizes (id.bind u.board.item?) op.layer := by
    rw [hlayer, hopens.fresh]
    rfl
  have hcopper := hopens.copper
  have haccepted := hopens.accepted
  have hstart : (u.prepareStart p).startPoint p (id.bind u.board.item?) = .ok op.start := by
    rw [← hopens.start]
    cases id.bind u.board.item? <;> rfl
  rw [hsizes, hlayer] at haccepted
  rw [hlayer] at hcopper
  obtain ⟨u', hidle', h⟩ := Checked.bind_eq_ok.mp h
  rw [hidle] at hidle'
  cases hidle'
  simp only at h
  split at h
  · simp only [openRoute] at h
    obtain ⟨start, hstart', h⟩ := Checked.bind_eq_ok.mp h
    cases hstart.symm.trans hstart'
    obtain ⟨refusal, hrefusal, h⟩ := Checked.bind_eq_ok.mp h
    cases haccepted.symm.trans hrefusal
    cases h
    exact ⟨congrArg some hopens.fresh.symm, rfl⟩
  · next hother => exact absurd hcopper hother

/-- A head that was moved and then fixed as a step. -/
theorem extendRoute_derives {t u : Tool} {p : Point} {id : Option ItemId} {r : RouteRequest}
    {g : RouteGeometry} {op' : RouteOp}
    (hmove : t.moveHead p id ((t.session.route?.map RouteOp.ortho).getD false) = .ok u)
    (hr : u.session.request? = some r) (hanswer : u.world.route r = .ok (.ok g))
    (hmissed : g.reachedTarget = false) (hcopper : g.items ≠ [])
    (hop' : (u.session.extendRoute g).route? = some op') :
    t.Derives (.fixRoute p id false) (u.mapSession fun s => s.extendRoute g) op' := by
  obtain ⟨_, _, f, hroute, _, _⟩ := moveHead_aims hmove
  cases hop : t.session.route? with
  | none =>
      rw [Session.route?_extendRoute, hroute, hop] at hop'
      cases hop'
  | some op =>
      obtain ⟨hworld, hboard, hrequest, hpush⟩ := moveHead_request? hop hmove
      rw [hrequest] at hr
      cases hr
      rw [hpush] at hop'
      cases hop'
      rw [hworld] at hanswer
      exact .altered hop (.rerouted (.extended hanswer hmissed hcopper)) (RouteOp.Redraws.refl _)
        hboard

/-- When the engine gives a head that reaches no target, a fix makes it a step. -/
theorem fixRoute_extends {t t' : Tool} {p : Point} {id : Option ItemId} {op : RouteOp}
    {g : RouteGeometry} (hop : t.session.route? = some op)
    (hanswer : t.world.route (t.asks (op.aim p id op.ortho)) = .ok (.ok g))
    (hmissed : g.reachedTarget = false) (hcopper : g.items ≠ [])
    (h : t.fixRoute p id false = .ok t') :
    t'.session.route? = some ((op.aim p id op.ortho).pushStep g) ∧ t'.board = t.board := by
  obtain ⟨u, hmove, h⟩ := Checked.bind_eq_ok.mp h
  obtain ⟨hworld, hboard, hrequest, hpush⟩ := moveHead_request? hop hmove
  have hopen : (false || g.reachedTarget) = false := by rw [hmissed]; rfl
  have hnonempty : g.items.isEmpty = false := by simpa using hcopper
  simp only [hrequest, hworld, hanswer, Checked.bind_eq_ok, Except.ok.injEq, exists_eq_left',
    hopen, hnonempty, Bool.false_eq_true, if_false, Checked.pure_eq_ok] at h
  rw [← h]
  exact ⟨hpush g, hboard⟩

/-- **Fixing a head** makes a step of it, or leaves the route as it is. -/
theorem fixRoute_derives {t t' : Tool} {p : Point} {id : Option ItemId} {finish : Bool}
    {op' : RouteOp} (hop' : t'.session.route? = some op') (h : t.fixRoute p id finish = .ok t') :
    t.Derives (.fixRoute p id finish) t' op' := by
  obtain ⟨u, hmove, houtcome⟩ := fixRoute_eq_ok h
  have hmoved := moveHead_keepsRoute hmove
  cases houtcome with
  | idle _ hsame | bare _ _ _ hsame =>
      rw [hsame] at hop' ⊢
      exact hmoved.derives hop'
  | unsolved _ _ hreported =>
      rw [hreported] at hop' ⊢
      exact (hmoved.trans (u.keepsRoute_report _)).derives hop'
  | finished _ _ _ hfinish =>
      rcases finishRoute_keepsRoute hfinish with hgone | hkept
      · rw [hgone] at hop'
        cases hop'
      · exact (hmoved.trans hkept).derives hop'
  | extended hrequest hanswer hopen hmissed hcopper hextended =>
      rw [hextended] at hop' ⊢
      rw [hopen]
      exact extendRoute_derives hmove hrequest hanswer hmissed hcopper hop'

/-- **Taking back a step** leads the route back to where the step began. -/
theorem undoLastSegment_derives {t t' : Tool} {op' : RouteOp}
    (hop' : t'.session.route? = some op') (h : t.undoLastSegment = .ok t') :
    t.Derives .undoLastSegment t' op' := by
  unfold undoLastSegment at h
  split at h
  · cases h
    exact (KeepsRoute.refl t).derives hop'
  · next way hundo =>
      obtain ⟨op, hop, hundo⟩ := Option.bind_eq_some_iff.mp hundo
      exact (refreshHead_keepsRoute h).derives_of_altered hop' hop rfl
        (.rerouted (.undone hundo))

/-- **A via** is hung on the route or taken back. -/
theorem toggleVia_derives {t t' : Tool} {v : ViaType} {target : Option LayerId} {op' : RouteOp}
    (hop' : t'.session.route? = some op') (h : t.toggleVia v target = .ok t') :
    t.Derives (.placeVia v target) t' op' := by
  unfold toggleVia at h
  split at h
  · cases h
    exact (t.keepsRoute_notify _).derives hop'
  · next op hop =>
      split at h
      · have hway : (t.mapSession Session.withdrawVia).session.route? = some op.withdrawVia := by
          rw [mapSession, Session.route?_withdrawVia, hop, Option.map_some]
        exact (refreshHead_keepsRoute h).derives_of_altered hop' hop hway
          (.rerouted (.withdrawn (.placeVia v target)))
      · next hsome =>
          have hnone : op.via = none := by simpa using hsome
          split at h
          · cases h
            exact (t.keepsRoute_report _).derives hop'
          · next resolved hlegal =>
              exact (refreshHead_keepsRoute h).derives_of_altered hop' hop rfl
                (.rerouted (.hung hnone hlegal))

/-- Forgetting which via a layer was asked for changes nothing about that. -/
theorem placeVia_derives {t t' : Tool} {v : ViaType} {target : Option LayerId} {op' : RouteOp}
    (hop' : t'.session.route? = some op') (h : t.placeVia v target = .ok t') :
    t.Derives (.placeVia v target) t' op' := by
  obtain ⟨hcommand, _, _, _⟩ | ⟨hop, halters, hsame, hboard⟩ := toggleVia_derives hop' h
  · cases hcommand
  · cases halters with
    | rerouted hchange =>
        cases hchange with
        | kept => exact .altered hop (.rerouted (.kept _)) hsame hboard
        | withdrawn htakes => exact .altered hop (.rerouted (.withdrawn htakes)) hsame hboard
        | hung hnone hlegal => exact .altered hop (.rerouted (.hung hnone hlegal)) hsame hboard
    | renewed hredesigns => cases hredesigns

/-- **Switching layers** leads through a via or directly to another layer. -/
theorem switchLayer_derives {t t' : Tool} {command : LayerCommand} {op' : RouteOp}
    (hop' : t'.session.route? = some op') (h : t.switchLayer command = .ok t') :
    t.Derives (.switchLayer command) t' op' := by
  -- the route without its via is what the rest of the command starts from
  obtain ⟨u, hu⟩ : ∃ u, u = t.mapSession Session.withdrawVia := ⟨_, rfl⟩
  have hroute : u.session.route? = t.session.route?.map RouteOp.withdrawVia := by
    rw [hu, mapSession, Session.route?_withdrawVia]
  have hboard : u.board = t.board := by rw [hu]; rfl
  have hworld : u.world = t.world := by rw [hu]; rfl
  have hrules : u.rules = t.rules := by rw [hu]; rfl
  have hasks : u.asks = t.asks := by rw [hu, asks_withdrawVia]
  have hkept (hkeeps : u.KeepsRoute t') : t.Derives (.switchLayer command) t' op' := by
    obtain ⟨way, hway, hsame⟩ := hkeeps.route op' hop'
    rw [hroute] at hway
    obtain ⟨op, hop, rfl⟩ := Option.map_eq_some_iff.mp hway
    exact .altered hop (.rerouted (.withdrawn (.switchLayer command))) hsame
      (hkeeps.board.trans hboard)
  rw [switchLayer, ← hu] at h
  simp only [goToLayer] at h
  split at h
  · cases h
    exact hkept (.refl _)
  · cases h
    exact hkept (.of_eq rfl rfl)
  · next layer r hresolve hr =>
      obtain ⟨way, hway, rfl⟩ := Option.map_eq_some_iff.mp hr
      obtain ⟨op, hop, rfl⟩ := Option.map_eq_some_iff.mp (hroute ▸ hway)
      unfold routeToLayer at h
      split at h
      · next hdirect =>
          have hjump : t.world.switchLayer (t.asks op.withdrawVia) layer = .direct := by
            rw [← hdirect, hworld, ← hasks]
            rfl
          have hjumped : (u.session.mapRoute fun op => { op with layer := layer }).route? =
              some { op.withdrawVia with layer := layer } := by
            rw [Session.route?_mapRoute, hway, Option.map_some]
          rw [hway, hboard] at hresolve
          have halters : t.Alters op (.switchLayer command) { op.withdrawVia with layer := layer }
              u.board := by
            rw [hboard]
            exact .rerouted (.jumped hresolve hjump)
          exact (refreshHead_keepsRoute h).derives_of_altered hop' hop hjumped halters
      · obtain ⟨hcommand, _, _, _⟩ | ⟨hsome, halters, hsame, hlast⟩ := placeVia_derives hop' h
        · cases hcommand
        · rw [hway] at hsome
          cases hsome
          cases halters with
          | renewed hredesigns => cases hredesigns
          | rerouted hchange =>
              have hlast' := hlast.trans hboard
              cases hchange with
              | kept =>
                  exact .altered hop (.rerouted (.withdrawn (.switchLayer command))) hsame hlast'
              | withdrawn =>
                  rw [RouteOp.withdrawVia_of_none op.via_withdrawVia] at hsame
                  exact .altered hop (.rerouted (.withdrawn (.switchLayer command))) hsame hlast'
              | hung _ hlegal =>
                  rw [hboard] at hlegal
                  rw [hboard, hrules] at hsame
                  exact .altered hop (.rerouted (.hungBelow hlegal)) hsame hlast'
      · cases h
        exact hkept (u.keepsRoute_report _)

/-- When the engine lets the head go on directly, it does. -/
theorem switchLayer_jumps {t t' : Tool} {command : LayerCommand} {layer : LayerId} {op : RouteOp}
    (hop : t.session.route? = some op)
    (hresolve : command.resolve op.withdrawVia.layer t.board.enabledLayers = some layer)
    (hdirect : t.world.switchLayer (t.asks op.withdrawVia) layer = .direct)
    (h : t.switchLayer command = .ok t') :
    ∃ op', t'.session.route? = some op' ∧
      RouteOp.Redraws { op.withdrawVia with layer := layer } op' ∧ t'.board = t.board := by
  have hroute : (t.mapSession Session.withdrawVia).session.route? = some op.withdrawVia := by
    rw [mapSession, Session.route?_withdrawVia, hop, Option.map_some]
  have hrequest : (t.mapSession Session.withdrawVia).session.request? =
      some (t.asks op.withdrawVia) := by
    rw [← asks_withdrawVia]
    exact request?_running hroute
  have hresolve' : command.resolve
      (((t.mapSession Session.withdrawVia).session.route?.map RouteOp.layer).getD
        (t.mapSession Session.withdrawVia).session.activeLayer)
      (t.mapSession Session.withdrawVia).board.enabledLayers = some layer := by
    rw [hroute]
    exact hresolve
  have hdirect' : (t.mapSession Session.withdrawVia).world.switchLayer (t.asks op.withdrawVia)
      layer = .direct := hdirect
  simp only [switchLayer, goToLayer, hresolve', hrequest, routeToLayer, hdirect'] at h
  have hjump : ((t.mapSession Session.withdrawVia).session.mapRoute fun op =>
      { op with layer := layer }).route? = some { op.withdrawVia with layer := layer } := by
    rw [Session.route?_mapRoute, hroute, Option.map_some]
  obtain ⟨op', hop', hsame, hboard⟩ := refreshHead_redraws (by exact hjump) h
  exact ⟨op', hop', hsame, hboard⟩

/-- A quiet step leaves a running route running. -/
theorem Quiet.route_runs {t t' : Tool} {op : RouteOp} (h : t.Quiet t')
    (hop : t.session.route? = some op) : ∃ op', t'.session.route? = some op' := by
  have hrest := h.rest
  rw [Session.route?_eq_some.mp hop] at hrest
  cases hlast : t'.session.operation with
  | none => rw [hlast] at hrest; cases hrest
  | dragging op' => rw [hlast] at hrest; cases hrest
  | routing op' => exact ⟨op', Session.route?_eq_some.mpr hlast⟩

/-- A step that can be taken back is. -/
theorem undoLastSegment_restores {t t' : Tool} {op way : RouteOp}
    (hop : t.session.route? = some op) (hundo : op.undoStep = some way)
    (h : t.undoLastSegment = .ok t') :
    ∃ op', t'.session.route? = some op' ∧ way.Redraws op' ∧ t'.board = t.board := by
  have hbind : t.session.route?.bind RouteOp.undoStep = some way := by
    rw [hop, Option.bind_some, hundo]
  simp only [undoLastSegment, hbind] at h
  obtain ⟨op', hop', hsame, hboard⟩ := refreshHead_redraws (by rfl) h
  exact ⟨op', hop', hsame, hboard⟩

/-- A via that hangs at the head is taken back when another one is asked for. -/
theorem placeVia_of_hung {t : Tool} {op : RouteOp} {v : ViaType} {target : Option LayerId}
    (hop : t.session.route? = some op) (hvia : op.via.isSome) :
    t.placeVia v target = ((t.mapSession fun s => { s with pendingViaTarget := none }).mapSession
      Session.withdrawVia).refreshHead := by
  have hroute : (t.mapSession fun s => { s with pendingViaTarget := none }).session.route? =
      some op := hop
  simp only [placeVia, toggleVia, hroute, hvia, if_true]

/-- The route runs on without it. -/
theorem placeVia_withdraws {t t' : Tool} {op : RouteOp} {v : ViaType} {target : Option LayerId}
    (hop : t.session.route? = some op) (hvia : op.via.isSome) (h : t.placeVia v target = .ok t') :
    ∃ op', t'.session.route? = some op' ∧ op.withdrawVia.Redraws op' ∧ t'.board = t.board := by
  have hroute : (t.mapSession fun s => { s with pendingViaTarget := none }).session.route? =
      some op := hop
  have hwithdrawn : ((t.mapSession fun s => { s with pendingViaTarget := none }).mapSession
      Session.withdrawVia).session.route? = some op.withdrawVia := by
    rw [mapSession, Session.route?_withdrawVia, hroute, Option.map_some]
  rw [placeVia_of_hung hop hvia] at h
  obtain ⟨op', hop', hsame, hboard⟩ := refreshHead_redraws hwithdrawn h
  exact ⟨op', hop', hsame, hboard⟩

/-- Switching the layer begins with taking the via back, so that a via taken back
before makes no difference. -/
theorem switchLayer_withdrawVia (t : Tool) (command : LayerCommand) :
    (t.mapSession Session.withdrawVia).switchLayer command = t.switchLayer command := by
  have hnone : t.session.withdrawVia.route?.bind RouteOp.via = none := by
    rw [Session.route?_withdrawVia]
    cases t.session.route? with
    | none => rfl
    | some op => exact op.via_withdrawVia
  have htwice : t.session.withdrawVia.withdrawVia = t.session.withdrawVia := by
    rw [Session.withdrawVia.eq_def t.session.withdrawVia, hnone]
  simp only [switchLayer, mapSession, htwice]

/-- New design settings renew the sizes of the running route. -/
theorem changeDesign_renews {t t' : Tool} {op : RouteOp} {change : Design → Design}
    (hop : t.session.route? = some op) (h : t.changeDesign change = .ok t') :
    ∃ op', t'.session.route? = some op' ∧
      (op.renewSizes (t.board.redesign change) t.rules).Redraws op' ∧
        t'.board = t.board.redesign change := by
  have hroute : (t.session.mapRoute (RouteOp.renewSizes (t.board.redesign change) t.rules)).route? =
      some (op.renewSizes (t.board.redesign change) t.rules) := by
    rw [Session.route?_mapRoute, hop, Option.map_some]
  obtain ⟨op', hop', hsame, hboard⟩ := refreshHead_redraws (by exact hroute) h
  exact ⟨op', hop', hsame, hboard⟩

/-- An operation that is gone or a drag is no route. -/
theorem beginDrag_route? {t : Tool} (hnone : t.session.operation = .none) (grabbed : List Item)
    (anchor : Point) (mode : DragMode) (locked : Bool) :
    (t.beginDrag grabbed anchor mode locked).session.route? = none := by
  have hasked := t.mayChange_session locked .dragLocked
  unfold beginDrag
  generalize t.mayChange locked .dragLocked = asked at hasked
  obtain ⟨u, confirmed⟩ := asked
  cases confirmed with
  | false => exact Session.route?_of_none (hasked ▸ hnone)
  | true => rfl

/-- Where items were to be grabbed no route runs any more. -/
theorem startDrag_route? {t t' : Tool} {ids : List ItemId} {anchor : Point} {mode : DragMode}
    (ht : t.Orderly) (h : t.startDrag ids anchor mode = .ok t') : t'.session.route? = none := by
  obtain ⟨u, hidle, h⟩ := Checked.bind_eq_ok.mp h
  have hnone := (makeIdle_advances ht hidle).2
  split at h
  · cases h
    show u.session.route? = none
    simp [Session.route?, hnone]
  · cases h
    exact beginDrag_route? hnone _ _ _ _

/-- Nor where a footprint was to be grabbed. -/
theorem startFootprintDrag_route? {t t' : Tool} {id : FootprintId} {anchor : Point}
    {mode : DragMode} (ht : t.Orderly) (h : t.startFootprintDrag id anchor mode = .ok t') :
    t'.session.route? = none := by
  obtain ⟨u, hidle, h⟩ := Checked.bind_eq_ok.mp h
  have hnone := (makeIdle_advances ht hidle).2
  have hgone : u.session.route? = none := Session.route?_of_none hnone
  split at h
  · cases h
    exact hgone
  · split at h
    · cases h
      exact hgone
    · cases h
      exact beginDrag_route? hnone _ _ _ _

/-- A route that is cancelled runs no more. -/
theorem cancelOperation_route? {t t' : Tool} (ht : t.Orderly) (h : t.cancelOperation = .ok t') :
    t'.session.route? = none := by
  obtain ⟨⟨u, stopped⟩, hstop, h⟩ := Checked.bind_eq_ok.mp h
  have hquiet := t.quiet_mapSession (f := fun s => { s with pendingViaTarget := none }) rfl rfl rfl
  have hnone := (stopOperation_advances (hquiet.advances ht).orderly hstop).2
  cases stopped <;> cases h <;> simp [Session.route?, mapSession, Session.markExit, hnone]

/-- A drag that is fixed does not turn into a route. -/
theorem fixDrag_route? {t t' : Tool} (h : t.fixDrag = .ok t') :
    t'.session.route? = none ∨ t' = t := by
  cases fixDrag_eq_ok h with
  | idle _ hsame => exact .inr hsame
  | void _ _ hended | committed _ _ _ hended =>
      rw [hended]
      exact .inl (Session.route?_of_none (Session.operation_finished _ _))
  | refused hop _ hcommit hresumed =>
      left
      rw [hresumed]
      show Session.route? (Session.resume _) = none
      rw [report, mapHost, commit_session hcommit]
      simp [Session.route?, Session.resume, Session.enter, Session.beginFix, mapSession,
        Session.drag?_eq_some.mp hop]

/-- Breaking a track does not touch the session, and needs it idle. -/
theorem breakTrack_session {t t' : Tool} {p : Point} (h : t.breakTrack p = .ok t') :
    t' = t ∨ (t.session.isIdle = true ∧ t'.session = t.session) := by
  unfold breakTrack at h
  split at h
  · cases h
    exact .inl rfl
  · next hbusy =>
      have hidle : t.session.isIdle = true := by simpa using hbusy
      refine .inr ⟨hidle, ?_⟩
      obtain ⟨found, _, h⟩ := Checked.bind_eq_ok.mp h
      split at h
      · cases h
        rfl
      · next i _ =>
          have hasked := t.mayChange_session i.locked .breakLocked
          generalize t.mayChange i.locked .breakLocked = asked at h hasked
          obtain ⟨u, confirmed⟩ := asked
          cases confirmed with
          | false =>
              cases h
              exact hasked
          | true =>
              obtain ⟨changes, _, h⟩ := Checked.bind_eq_ok.mp h
              split at h
              · cases h
                exact hasked
              · obtain ⟨⟨r, v⟩, hcommit, h⟩ := Checked.bind_eq_ok.mp h
                have hsession := commit_session hcommit
                cases r <;> cases h <;> exact hsession.trans hasked

/-- Going back needs an idle session, which it leaves alone. -/
theorem undo_session (t : Tool) :
    t.undo.1 = t ∨ (t.session.isIdle = true ∧ t.undo.1.session = t.session) := by
  unfold undo
  split
  · exact .inl rfl
  · next hbusy =>
      refine .inr ⟨by simpa using hbusy, ?_⟩
      split <;> rfl

/-- Going forward needs an idle session, which it leaves alone. -/
theorem redo_session (t : Tool) :
    t.redo.1 = t ∨ (t.session.isIdle = true ∧ t.redo.1.session = t.session) := by
  unfold redo
  split
  · exact .inl rfl
  · next hbusy =>
      refine .inr ⟨by simpa using hbusy, ?_⟩
      split <;> rfl

/-- What needs an idle session leaves no route running, unless it does nothing. -/
theorem Orderly.derives_of_idle {t t' : Tool} {c : Command} {op' : RouteOp} (ht : t.Orderly)
    (hop' : t'.session.route? = some op')
    (h : t' = t ∨ (t.session.isIdle = true ∧ t'.session = t.session)) : t.Derives c t' op' := by
  rcases h with rfl | ⟨hidle, hsession⟩
  · exact (KeepsRoute.refl t').derives hop'
  · have hnone := ht.operation_of_idle hidle
    rw [hsession, Session.route?_of_none hnone] at hop'
    cases hop'

/-- A size command settles the sizes of the route for the new design settings. -/
theorem changeDesign_derives {t t' : Tool} {c : Command} {change : Design → Design}
    {op' : RouteOp} (hredesigns : c.Redesigns change) (hop' : t'.session.route? = some op')
    (h : t.changeDesign change = .ok t') : t.Derives c t' op' := by
  have hkept := refreshHead_keepsRoute h
  obtain ⟨way, hway, hsame⟩ := hkept.route op' hop'
  obtain ⟨op, hop, rfl⟩ := Option.map_eq_some_iff.mp ((Session.route?_mapRoute _ _).symm.trans hway)
  exact .altered hop (.renewed hredesigns) hsame hkept.board

/-- The width of tracks is renewed in the running route. -/
theorem setCustomTrackWidth_derives {t t' : Tool} {width : UInt32} {op' : RouteOp}
    (hop' : t'.session.route? = some op') (h : t.setCustomTrackWidth width = .ok t') :
    t.Derives (.setCustomTrackWidth width) t' op' := by
  unfold setCustomTrackWidth at h
  split at h
  · cases h
    exact (t.keepsRoute_report _).derives hop'
  · exact changeDesign_derives (.trackWidth width) hop' h

/-- The size of vias is renewed in the running route. -/
theorem setCustomViaSize_derives {t t' : Tool} {diameter drill : UInt32} {op' : RouteOp}
    (hop' : t'.session.route? = some op') (h : t.setCustomViaSize diameter drill = .ok t') :
    t.Derives (.setCustomViaSize diameter drill) t' op' := by
  unfold setCustomViaSize at h
  split at h
  · cases h
    exact (t.keepsRoute_report _).derives hop'
  · exact changeDesign_derives (.viaSize diameter drill) hop' h

/-- The sizes of differential pairs are renewed in the running route. -/
theorem setDiffPair_derives {t t' : Tool} {width gap viaGap : UInt32} {op' : RouteOp}
    (hop' : t'.session.route? = some op') (h : t.setDiffPair width gap viaGap = .ok t') :
    t.Derives (.setDiffPair width gap viaGap) t' op' := by
  unfold setDiffPair at h
  split at h
  · cases h
    exact (t.keepsRoute_report _).derives hop'
  · exact changeDesign_derives (.diffPair width gap viaGap) hop' h

/-- Another pair of layers is used in the running route. -/
theorem selectLayerPair_derives {t : Tool} {pair : LayerPair} {op' : RouteOp}
    (hop' : (t.selectLayerPair pair).session.route? = some op') :
    t.Derives (.selectLayerPair pair) (t.selectLayerPair pair) op' := by
  unfold selectLayerPair at hop' ⊢
  split
  · exact (t.keepsRoute_report _).derives (by simpa [*] using hop')
  · next hlegal =>
      rw [if_neg hlegal] at hop'
      obtain ⟨op, hop, rfl⟩ :=
        Option.map_eq_some_iff.mp ((Session.route?_mapRoute _ _).symm.trans hop')
      exact .altered hop .paired (RouteOp.Redraws.refl _) rfl

/-- **Every command** that leaves a route running began it, or made it of the one before
in one of the listed ways. -/
theorem execute_derives {t t' : Tool} {c : Command} {refusal : Option CommandRefusal}
    {op' : RouteOp} (ht : t.Orderly) (hop' : t'.session.route? = some op')
    (h : t.execute c = .ok (t', refusal)) : t.Derives c t' op' := by
  have gone (hnone : t'.session.route? = none) : t.Derives c t' op' := by
    rw [hnone] at hop'
    cases hop'
  cases c with
  | startRouting p id => exact startRouting_derives ht hop' (Checked.of_tagged h)
  | fixRoute p id finish => exact fixRoute_derives hop' (Checked.of_tagged h)
  | undoLastSegment => exact undoLastSegment_derives hop' (Checked.of_tagged h)
  | placeVia v target => exact placeVia_derives hop' (Checked.of_tagged h)
  | switchLayer command => exact switchLayer_derives hop' (Checked.of_tagged h)
  | startDrag ids anchor mode => exact gone (startDrag_route? ht (Checked.of_tagged h))
  | startFootprintDrag id anchor mode =>
      exact gone (startFootprintDrag_route? ht (Checked.of_tagged h))
  | cancelOperation => exact gone (cancelOperation_route? ht (Checked.of_tagged h))
  | fixDrag =>
      rcases fixDrag_route? (Checked.of_tagged h) with hnone | rfl
      · exact gone hnone
      · exact (KeepsRoute.refl t').derives hop'
  | breakTrack p => exact ht.derives_of_idle hop' (breakTrack_session (Checked.of_tagged h))
  | undo =>
      have hundo := t.undo_session
      rw [Checked.pure_eq_ok.mp h] at hundo
      exact ht.derives_of_idle hop' hundo
  | redo =>
      have hredo := t.redo_session
      rw [Checked.pure_eq_ok.mp h] at hredo
      exact ht.derives_of_idle hop' hredo
  | moveHead p id ortho => exact (moveHead_keepsRoute (Checked.of_tagged h)).derives hop'
  | flipPosture | toggleRounding =>
      refine KeepsRoute.derives ?_ hop'
      refine KeepsRoute.trans ?_ (refreshHead_keepsRoute (Checked.of_tagged h))
      exact .of_eq rfl rfl
  | setRouterMode mode => exact (setRouterMode_keepsRoute (Checked.of_tagged h)).derives hop'
  | setCustomTrackWidth width => exact setCustomTrackWidth_derives hop' (Checked.of_tagged h)
  | setCustomViaSize diameter drill => exact setCustomViaSize_derives hop' (Checked.of_tagged h)
  | setDiffPair width gap viaGap => exact setDiffPair_derives hop' (Checked.of_tagged h)
  | useNetClassSizes => exact changeDesign_derives .netClasses hop' (Checked.of_tagged h)
  | moveDrag p => exact (moveDrag_keepsRoute (Checked.of_tagged h)).derives hop'
  | selectLayerPair pair =>
      cases h
      exact selectLayerPair_derives hop'
  | requestViaTarget | trackCursor | resetSession | clearWorld | syncWorld =>
      cases h
      refine KeepsRoute.derives ?_ hop'
      exact .of_eq rfl rfl

/-- Every command that leaves a route running began it, or changed the way of the one
before in one of the ways of `Rerouting`. -/
theorem execute_reroutes {t t' : Tool} {c : Command} {refusal : Option CommandRefusal}
    {op' : RouteOp} (ht : t.Orderly) (hop' : t'.session.route? = some op')
    (h : t.execute c = .ok (t', refusal)) : t.Reroutes c t' op' :=
  (execute_derives ht hop' h).reroutes

end Tool

end CopperRoute
