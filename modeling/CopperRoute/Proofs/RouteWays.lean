import CopperRoute.Proofs.Lifecycle

/-!
# The way of a route

Many commands only ask for another head of the running route (`RouteOp.Redraws`).  A
tool that **keeps the route** (`Tool.KeepsRoute`) does no more than that, and leaves the
board alone.

Others settle other sizes and change the design settings besides
(`Command.Redesigns`).  Even they leave the **way** of the route alone: its start, its
layer, its fixed steps and where its via leads (`RouteOp.SameWay`).
-/

namespace CopperRoute

/-- Between which layers a via at the head leads, whatever its size. -/
def PendingVia.place (p : PendingVia) : LayerPair × LayerId × LayerId :=
  (p.via.span, p.fromLayer, p.toLayer)

/-- **The same way.**  The routes may differ in their heads, in where these were wanted
to end, and in all sizes. -/
structure RouteOp.SameWay (op op' : RouteOp) : Prop where
  net : op'.net = op.net
  start : op'.start = op.start
  startItem : op'.startItem = op.startItem
  layer : op'.layer = op.layer
  steps : op'.steps = op.steps
  via : op'.via.map PendingVia.place = op.via.map PendingVia.place

/-- **The same route** but for its head: where that was last wanted to end, and what was
drawn of it. -/
structure RouteOp.Redraws (op op' : RouteOp) : Prop where
  net : op'.net = op.net
  start : op'.start = op.start
  startItem : op'.startItem = op.startItem
  layer : op'.layer = op.layer
  sizes : op'.sizes = op.sizes
  via : op'.via = op.via
  steps : op'.steps = op.steps

namespace RouteOp

theorem Redraws.refl (op : RouteOp) : op.Redraws op := ⟨rfl, rfl, rfl, rfl, rfl, rfl, rfl⟩

/-- A route that is redrawn twice is redrawn. -/
theorem Redraws.trans {op₁ op₂ op₃ : RouteOp} (h₁₂ : op₁.Redraws op₂) (h₂₃ : op₂.Redraws op₃) :
    op₁.Redraws op₃ :=
  ⟨h₂₃.net.trans h₁₂.net, h₂₃.start.trans h₁₂.start, h₂₃.startItem.trans h₁₂.startItem,
    h₂₃.layer.trans h₁₂.layer, h₂₃.sizes.trans h₁₂.sizes, h₂₃.via.trans h₁₂.via,
    h₂₃.steps.trans h₁₂.steps⟩

/-- Another head goes the same way. -/
theorem Redraws.sameWay {op op' : RouteOp} (h : op.Redraws op') : op.SameWay op' :=
  ⟨h.net, h.start, h.startItem, h.layer, h.steps, congrArg (Option.map PendingVia.place) h.via⟩

/-- Another head redraws the route. -/
theorem redraws_head (op : RouteOp) (head : Option RouteGeometry) :
    op.Redraws { op with head := head } :=
  ⟨rfl, rfl, rfl, rfl, rfl, rfl, rfl⟩

/-- Another aim redraws the route. -/
theorem redraws_aim (op : RouteOp) (p : Point) (id : Option ItemId) (ortho : Bool) :
    op.Redraws (op.aim p id ortho) :=
  ⟨rfl, rfl, rfl, rfl, rfl, rfl, rfl⟩

theorem SameWay.refl (op : RouteOp) : op.SameWay op := ⟨rfl, rfl, rfl, rfl, rfl, rfl⟩

/-- Routes that come the same way as a third one come the same way. -/
theorem SameWay.trans {op₁ op₂ op₃ : RouteOp} (h₁₂ : op₁.SameWay op₂) (h₂₃ : op₂.SameWay op₃) :
    op₁.SameWay op₃ :=
  ⟨h₂₃.net.trans h₁₂.net, h₂₃.start.trans h₁₂.start, h₂₃.startItem.trans h₁₂.startItem,
    h₂₃.layer.trans h₁₂.layer, h₂₃.steps.trans h₁₂.steps, h₂₃.via.trans h₁₂.via⟩

/-- Another aim leaves the way as it is. -/
theorem sameWay_aim (op : RouteOp) (p : Point) (id : Option ItemId) (ortho : Bool) :
    op.SameWay (op.aim p id ortho) :=
  (op.redraws_aim p id ortho).sameWay

/-- Another pair of layers leaves the way as it is. -/
theorem sameWay_usePair (op : RouteOp) (pair : LayerPair) : op.SameWay (op.usePair pair) := by
  unfold usePair
  split <;> exact ⟨rfl, rfl, rfl, rfl, rfl, rfl⟩

/-- New sizes do not move the via at the head. -/
theorem sameWay_renewSizes (op : RouteOp) (b : Board) (rules : RuleSet) :
    op.SameWay (op.renewSizes b rules) := by
  refine ⟨rfl, rfl, rfl, rfl, rfl, ?_⟩
  cases hvia : op.via <;> simp [renewSizes, hvia, PendingVia.place]

/-- Without a via there is none to take back. -/
theorem withdrawVia_of_none {op : RouteOp} (h : op.via = none) : op.withdrawVia = op := by
  simp only [withdrawVia, h]

/-- Once the via is taken back there is none. -/
theorem via_withdrawVia (op : RouteOp) : op.withdrawVia.via = none := by
  cases hvia : op.via <;> simp [withdrawVia, hvia]

end RouteOp

/-- The running route without its via. -/
theorem Session.route?_withdrawVia (s : Session) :
    s.withdrawVia.route? = s.route?.map RouteOp.withdrawVia := by
  unfold withdrawVia
  split
  · exact s.route?_mapRoute _
  · next hnone =>
      cases hop : s.route? with
      | none => rfl
      | some op =>
          rw [hop] at hnone
          rw [Option.map_some, RouteOp.withdrawVia_of_none hnone]

/-- Taking back the via leaves the router mode. -/
theorem Session.withdrawVia_mode (s : Session) : s.withdrawVia.mode = s.mode := by
  unfold withdrawVia
  split
  · exact s.mapRoute_mode _
  · rfl

theorem Session.withdrawVia_posture (s : Session) : s.withdrawVia.posture = s.posture := by
  unfold withdrawVia
  split
  · exact s.mapRoute_posture _
  · rfl

theorem Session.withdrawVia_rounded (s : Session) : s.withdrawVia.rounded = s.rounded := by
  unfold withdrawVia
  split
  · exact s.mapRoute_rounded _
  · rfl

/-- Fixing a step changes the route by `RouteOp.pushStep`. -/
theorem Session.route?_extendRoute (s : Session) (g : RouteGeometry) :
    (s.extendRoute g).route? = s.route?.map fun op => op.pushStep g := by
  exact s.beginFix.route?_mapRoute _

/-- The board with other design settings. -/
def Board.redesign (b : Board) (change : Design → Design) : Board :=
  { b with design := change b.design }

/-- What a size command changes about the design settings. -/
inductive Command.Redesigns : Command → (Design → Design) → Prop
  | trackWidth (width : UInt32) :
      Redesigns (.setCustomTrackWidth width) fun d =>
        { d with customTrackWidth := width, useCustomSizes := true }
  | viaSize (diameter drill : UInt32) :
      Redesigns (.setCustomViaSize diameter drill) fun d =>
        { d with currentViaSize := diameter, currentViaDrill := drill, useCustomSizes := true }
  | diffPair (width gap viaGap : UInt32) :
      Redesigns (.setDiffPair width gap viaGap) fun d =>
        { d with
          customDiffPairWidth := width
          customDiffPairGap := gap
          customDiffPairViaGap := viaGap
          useCustomSizes := true }
  | netClasses : Redesigns .useNetClassSizes fun d => { d with useCustomSizes := false }

/-- **The size commands that are accepted**, which depends on their values alone. -/
def Command.resizes : Command → Bool
  | setCustomTrackWidth width => ¬ width = 0
  | setCustomViaSize diameter drill => ¬ (drill = 0 ∨ diameter ≤ drill)
  | setDiffPair width gap _ => ¬ (width = 0 ∨ gap = 0)
  | useNetClassSizes => true
  | _ => false

/-- The pairs that can be chosen for vias: two different layers of the stackup. -/
def Stackup.Admits (s : Stackup) (pair : LayerPair) : Prop :=
  s.contains pair.top = true ∧ s.contains pair.bottom = true ∧ pair.isDegenerate = false

instance (s : Stackup) (pair : LayerPair) : Decidable (s.Admits pair) :=
  inferInstanceAs (Decidable (_ ∧ _))

/-- The board with another pair of layers for vias. -/
def Board.withPair (b : Board) (pair : LayerPair) : Board :=
  b.redesign fun d => { d with routeLayerPair := some pair }

namespace Tool

/-- A pair that is admitted is chosen. -/
theorem selectLayerPair_of_admits {t : Tool} {pair : LayerPair}
    (h : t.board.stackup.Admits pair) :
    t.selectLayerPair pair = { t with
      session := t.session.mapRoute (RouteOp.usePair pair)
      board := t.board.withPair pair
      world := some (t.board.withPair pair) } := by
  obtain ⟨htop, hbottom, hproper⟩ := h
  simp only [selectLayerPair, htop, hbottom, hproper, Bool.not_true, Bool.or_false,
    Bool.false_eq_true, if_false]
  rfl

/-- Another one is rejected. -/
theorem selectLayerPair_of_not_admits {t : Tool} {pair : LayerPair}
    (h : ¬ t.board.stackup.Admits pair) :
    t.selectLayerPair pair = t.report (.inputRejected (.illegalLayerPair pair)) := by
  unfold selectLayerPair
  refine if_pos ?_
  by_contra hlegal
  refine h ⟨?_, ?_, ?_⟩ <;> simp_all

/-- **A size command** is rejected for its values, or changes the design settings; that does
not depend on the tool. -/
theorem execute_redesigns {c : Command} {change : Design → Design} (hc : c.Redesigns change) :
    (c.resizes = false ∧ ∃ e, ∀ t : Tool, t.execute c = .ok (t.report e, none)) ∨
      (c.resizes = true ∧ ∀ t : Tool, t.execute c = do return (← t.changeDesign change, none)) := by
  cases hc with
  | trackWidth width =>
      by_cases hbad : width = 0
      · refine .inl ⟨decide_eq_false (not_not_intro hbad), .inputRejected .zeroTrackWidth,
          fun t => ?_⟩
        simp only [execute, setCustomTrackWidth, if_pos hbad]
        rfl
      · exact .inr ⟨decide_eq_true hbad, fun t => by
          simp only [execute, setCustomTrackWidth, if_neg hbad]⟩
  | viaSize diameter drill =>
      by_cases hbad : drill = 0 ∨ diameter ≤ drill
      · refine .inl ⟨decide_eq_false (not_not_intro hbad),
          .inputRejected (.drillTooLarge drill diameter), fun t => ?_⟩
        simp only [execute, setCustomViaSize, if_pos hbad]
        rfl
      · exact .inr ⟨decide_eq_true hbad, fun t => by
          simp only [execute, setCustomViaSize, if_neg hbad]⟩
  | diffPair width gap viaGap =>
      by_cases hbad : width = 0 ∨ gap = 0
      · exact .inl ⟨decide_eq_false (not_not_intro hbad), .inputRejected .zeroDiffPair, fun t => by
          simp only [execute, setDiffPair, if_pos hbad]
          rfl⟩
      · exact .inr ⟨decide_eq_true hbad, fun t => by simp only [execute, setDiffPair, if_neg hbad]⟩
  | netClasses => exact .inr ⟨rfl, fun t => rfl⟩

/-- The board stays, and a route that runs afterwards is the one from before with
another head. -/
structure KeepsRoute (t t' : Tool) : Prop where
  board : t'.board = t.board
  route : ∀ op', t'.session.route? = some op' → ∃ op, t.session.route? = some op ∧ op.Redraws op'

/-- The same board and the same route are kept. -/
theorem KeepsRoute.of_eq {t t' : Tool} (hboard : t'.board = t.board)
    (hroute : t'.session.route? = t.session.route?) : t.KeepsRoute t' :=
  ⟨hboard, fun op' hop' => ⟨op', hroute ▸ hop', RouteOp.Redraws.refl op'⟩⟩

theorem KeepsRoute.refl (t : Tool) : t.KeepsRoute t := .of_eq rfl rfl

/-- No route runs afterwards. -/
theorem KeepsRoute.of_none {t t' : Tool} (hboard : t'.board = t.board)
    (hroute : t'.session.route? = none) : t.KeepsRoute t' :=
  ⟨hboard, fun op' hop' => by rw [hroute] at hop'; cases hop'⟩

/-- Two steps that keep the route keep it together. -/
theorem KeepsRoute.trans {t u v : Tool} (htu : t.KeepsRoute u) (huv : u.KeepsRoute v) :
    t.KeepsRoute v := by
  refine ⟨huv.board.trans htu.board, fun op' hop' => ?_⟩
  obtain ⟨op₁, hop₁, hsame₁⟩ := huv.route op' hop'
  obtain ⟨op, hop, hsame⟩ := htu.route op₁ hop₁
  exact ⟨op, hop, hsame.trans hsame₁⟩

/-- A notification keeps the route. -/
theorem keepsRoute_notify (t : Tool) (n : Notification) : t.KeepsRoute (t.notify n) :=
  .of_eq rfl rfl

theorem keepsRoute_report (t : Tool) (e : RouterError) : t.KeepsRoute (t.report e) :=
  t.keepsRoute_notify (.error e)

/-- Changing the route is keeping it when only its head changes. -/
theorem keepsRoute_mapRoute {t t' : Tool} {f : RouteOp → RouteOp}
    (hf : ∀ op : RouteOp, op.Redraws (f op)) (hboard : t'.board = t.board)
    (hroute : t'.session.route? = t.session.route?.map f) : t.KeepsRoute t' := by
  refine ⟨hboard, fun op' hop' => ?_⟩
  rw [hroute] at hop'
  obtain ⟨op, hop, rfl⟩ := Option.map_eq_some_iff.mp hop'
  exact ⟨op, hop, hf op⟩

/-- A new head keeps the route. -/
theorem refreshHead_keepsRoute {t t' : Tool} (h : t.refreshHead = .ok t') : t.KeepsRoute t' := by
  rcases refreshHead_eq_ok h with rfl | ⟨g, rfl⟩
  · exact KeepsRoute.refl t'
  · exact keepsRoute_mapRoute (fun op => op.redraws_head (some g)) rfl
      (t.session.route?_mapRoute _)

/-- A route that runs before runs afterwards. -/
theorem refreshHead_redraws {t t' : Tool} {op : RouteOp} (hop : t.session.route? = some op)
    (h : t.refreshHead = .ok t') :
    ∃ op', t'.session.route? = some op' ∧ op.Redraws op' ∧ t'.board = t.board := by
  rcases refreshHead_eq_ok h with rfl | ⟨g, rfl⟩
  · exact ⟨op, hop, RouteOp.Redraws.refl op, rfl⟩
  · refine ⟨{ op with head := some g }, ?_, op.redraws_head (some g), rfl⟩
    rw [drawHead, mapSession, Session.route?_mapRoute, hop, Option.map_some]

/-- Moving the head keeps the route. -/
theorem moveHead_keepsRoute {t t' : Tool} {p : Point} {id : Option ItemId} {ortho : Bool}
    (h : t.moveHead p id ortho = .ok t') : t.KeepsRoute t' := by
  refine KeepsRoute.trans ?_ (refreshHead_keepsRoute h)
  exact keepsRoute_mapRoute (fun op => op.redraws_aim p id ortho) rfl (Session.route?_mapRoute _ _)

/-- Choosing the router mode keeps the route. -/
theorem setRouterMode_keepsRoute {t t' : Tool} {mode : RouterMode}
    (h : t.setRouterMode mode = .ok t') : t.KeepsRoute t' := by
  unfold setRouterMode at h
  split at h
  · cases h
    exact KeepsRoute.refl t
  · refine KeepsRoute.trans ?_ (refreshHead_keepsRoute h)
    exact .of_eq rfl rfl

/-- Moving a drag finds no route running, or only the pointer moves. -/
theorem moveDrag_route? {t t' : Tool} {p : Point} (h : t.moveDrag p = .ok t') :
    (t'.session.route? = none ∧ t'.board = t.board) ∨ t' = t.trackCursor p := by
  simp only [moveDrag] at h
  split at h
  · cases h
    exact .inr rfl
  · next op hdrag =>
      have hdragging := Session.drag?_eq_some.mp hdrag
      obtain ⟨answer, _, h⟩ := Checked.bind_eq_ok.mp h
      left
      split at h
      · cases h
        exact ⟨rfl, rfl⟩
      · split at h
        · cases h
          refine ⟨?_, rfl⟩
          simp only [Session.route?, hdragging]
        · cases h
          exact ⟨rfl, rfl⟩

/-- Moving a drag keeps the route, as there is none. -/
theorem moveDrag_keepsRoute {t t' : Tool} {p : Point} (h : t.moveDrag p = .ok t') :
    t.KeepsRoute t' := by
  rcases moveDrag_route? h with ⟨hnone, hboard⟩ | rfl
  · exact .of_none hboard hnone
  · exact .of_eq rfl rfl

/-- A fix that the board refuses leaves the route as it was. -/
theorem finishRoute_keepsRoute {t t' : Tool} {g : RouteGeometry} (h : t.finishRoute g = .ok t') :
    t'.session.route? = none ∨ t.KeepsRoute t' := by
  obtain ⟨⟨r, u⟩, hcommit, h⟩ := Checked.bind_eq_ok.mp h
  cases r with
  | ok report =>
      cases h
      exact .inl (Session.route?_of_none (Session.operation_finished _ _))
  | error reason =>
      cases h
      right
      have hsession := commit_session hcommit
      rcases commit_eq_ok hcommit with ⟨_, rfl⟩ | ⟨hr, _⟩ | ⟨_, _, _, _, _, hr, _⟩
      · exact .of_eq rfl rfl
      · cases hr
      · cases hr

end Tool

end CopperRoute
