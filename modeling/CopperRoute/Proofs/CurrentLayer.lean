import CopperRoute.Proofs.FreshHeads

/-!
# Switching to the current layer

A layer command that names the active layer leads nowhere, and should leave everything as it
is.  Without a via at the head of a route it does.

A via at the head is another matter.  It is taken back before the command looks for its layer,
and the layer that it starts from is then that of the head; the active layer, behind the via,
is another one.  So the switch goes on.  It may still lead nowhere, and the via is lost; or the
head goes on directly, or gets a through via in the place of the one that was there.

What runs therefore **stays put** (`Tool.StaysPut`) exactly when the via that hangs at its head
is hung there again as it was (`Tool.HangsAgain`, `Tool.reached_staysPut_iff`).
-/

namespace CopperRoute

/-- From a layer, no command leads to that layer. -/
theorem LayerCommand.resolve_of_target {command : LayerCommand} {layer : LayerId}
    {enabled : List LayerId} (h : command.target layer enabled = some layer) :
    command.resolve layer enabled = none := by
  rw [resolve, h]
  simp

/-- Who asks for a through via gets one. -/
theorem Via.viaType_of_through {current : LayerId} {target : Option LayerId}
    {e : ViaEnvironment} {v : ResolvedVia} (h : resolve ⟨current, target, .through⟩ e = .ok v) :
    v.viaType = .through := by
  unfold resolve at h
  split at h
  · cases h
  · simp only at h
    split at h
    · cases h
    · cases h
      simp [typeFor]

namespace RouteOp

/-- **The same state** of a route: its layer, sizes and via, its fixed steps, and its head. -/
structure SameState (op op' : RouteOp) : Prop where
  layer : op'.layer = op.layer
  sizes : op'.sizes = op.sizes
  via : op'.via = op.via
  steps : op'.steps = op.steps
  head : op'.head = op.head

variable {op op' : RouteOp}

theorem SameState.refl (op : RouteOp) : op.SameState op := ⟨rfl, rfl, rfl, rfl, rfl⟩

/-- Both lead on to the same layer. -/
theorem SameState.nextLayer (h : op.SameState op') : Tool.nextLayer op' = Tool.nextLayer op := by
  simp only [Tool.nextLayer, h.via, h.layer]

/-- A via that is taken back and hung again as it was restores the route. -/
theorem eq_of_hangVia {b : Board} {rules : RuleSet} {v : ResolvedVia}
    (hlayer : op.withdrawVia.layer = op.layer)
    (hsizes : (op.withdrawVia.hangVia b rules v).sizes = op.sizes)
    (hvia : (op.withdrawVia.hangVia b rules v).via = op.via) :
    op.withdrawVia.hangVia b rules v = op := by
  have hrest : op.withdrawVia.hangVia b rules v =
      { op with
        layer := op.withdrawVia.layer
        sizes := (op.withdrawVia.hangVia b rules v).sizes
        via := (op.withdrawVia.hangVia b rules v).via } := by
    unfold withdrawVia
    split <;> rfl
  rw [hrest, hlayer, hsizes, hvia]

end RouteOp

namespace Tool

variable {t t' u : Tool} {op : RouteOp} {command : LayerCommand}

/-- **What runs stays put**: the active layer and the state of the route are as before. -/
structure StaysPut (t t' : Tool) : Prop where
  activeLayer : t'.session.activeLayer = t.session.activeLayer
  route : ∀ op, t.session.route? = some op →
    ∃ op', t'.session.route? = some op' ∧ op.SameState op'

/-- **The via is hung again.**  Without its via, the layer that the command leads to needs a
via, and the through via there is the one that was taken back; and the engine has no other head
for the route. -/
inductive HangsAgain (t : Tool) (op : RouteOp) (command : LayerCommand) : Prop
  | mk {layer : LayerId} {v : ResolvedVia}
      (hresolve : command.resolve op.withdrawVia.layer t.board.enabledLayers = some layer)
      (hrequired : t.world.switchLayer (t.asks op.withdrawVia) layer = .viaRequired)
      (hlegal : Via.resolve ⟨op.withdrawVia.layer, some layer, .through⟩
        (ViaEnvironment.ofBoard t.board) = .ok v)
      (hsame : op.withdrawVia.hangVia t.board t.rules v = op)
      (hdrawn : ∀ g, t.world.route (t.asks op) = .ok (.ok g) → op.head = some g)

theorem StaysPut.congr (h : t.StaysPut t') (hsession : u.session = t.session) : u.StaysPut t' :=
  ⟨hsession ▸ h.activeLayer, hsession ▸ h.route⟩

theorem HangsAgain.congr (h : t.HangsAgain op command) (hboard : u.board = t.board)
    (hworld : u.world = t.world) (hrules : u.rules = t.rules) (hasks : u.asks = t.asks) :
    u.HangsAgain op command := by
  obtain ⟨hresolve, hrequired, hlegal, hsame, hdrawn⟩ := h
  refine ⟨hboard ▸ hresolve, ?_, hboard ▸ hlegal, ?_, fun g hanswer => hdrawn g ?_⟩
  · rw [hworld, hasks]
    exact hrequired
  · rw [hboard, hrules]
    exact hsame
  · rw [← hworld, ← hasks]
    exact hanswer

/-- A via that is hung again is a through via. -/
theorem HangsAgain.through {p : PendingVia} (h : t.HangsAgain op command)
    (hvia : op.via = some p) : p.via.viaType = .through := by
  obtain ⟨_, _, hlegal, hsame, _⟩ := h
  rw [← hsame] at hvia
  cases hvia
  exact Via.viaType_of_through hlegal

/-- **A route with a via** stays as it is exactly when that is hung again. -/
theorem Switches.sameState_iff (h : t.Switches op command t') (hvia : op.via.isSome = true) :
    (∃ op', t'.session.route? = some op' ∧ op.SameState op') ↔ t.HangsAgain op command := by
  have hlost {op' : RouteOp} (hnone : op'.via = none) (hsame : op.SameState op') : False := by
    rw [← hsame.via, hnone] at hvia
    cases hvia
  constructor
  · rintro ⟨op', hop', hsame⟩
    cases h with
    | nowhere _ _ hroute =>
        cases hroute.symm.trans hop'
        exact absurd hsame (hlost op.via_withdrawVia)
    | jumped _ _ hroute hrefreshed =>
        obtain ⟨_, _, ⟨g, _, hdrawn⟩ | ⟨_, hdrawn⟩⟩ := refreshHead_draws hroute hrefreshed <;>
        · cases hdrawn.symm.trans hop'
          exact absurd hsame (hlost op.via_withdrawVia)
    | @hung layer v u hresolve hrequired hlegal hworld hroute hasks hrefreshed =>
        obtain ⟨_, _, hdrawn⟩ := refreshHead_draws hroute hrefreshed
        rw [hworld, hasks] at hdrawn
        have hagain : op.withdrawVia.hangVia t.board t.rules v = op := by
          rcases hdrawn with ⟨g, _, hdrawn⟩ | ⟨_, hdrawn⟩ <;>
          · cases hdrawn.symm.trans hop'
            exact RouteOp.eq_of_hangVia hsame.layer hsame.sizes hsame.via
        rw [hagain] at hdrawn
        refine ⟨hresolve, hrequired, hlegal, hagain, fun g hanswer => ?_⟩
        rcases hdrawn with ⟨g', hanswer', hdrawn⟩ | ⟨hnone, _⟩
        · cases hanswer.symm.trans hanswer'
          cases hdrawn.symm.trans hop'
          exact hsame.head.symm
        · exact absurd hanswer (hnone g)
  · rintro ⟨hresolve, hrequired, hlegal, hsame, hhead⟩
    cases h with
    | nowhere hnowhere => exact absurd hlegal (hnowhere.not_legal hresolve hrequired)
    | jumped hresolve' hdirect =>
        cases hresolve.symm.trans hresolve'
        cases hrequired.symm.trans hdirect
    | hung hresolve' _ hlegal' hworld hroute hasks hrefreshed =>
        cases hresolve.symm.trans hresolve'
        cases hlegal.symm.trans hlegal'
        rw [hsame] at hroute
        obtain ⟨_, _, hdrawn⟩ := refreshHead_draws hroute hrefreshed
        rw [hworld, hasks] at hdrawn
        rcases hdrawn with ⟨g, hanswer, hdrawn⟩ | ⟨_, hdrawn⟩
        · exact ⟨_, hdrawn, rfl, rfl, rfl, rfl, (hhead g hanswer).symm⟩
        · exact ⟨op, hdrawn, .refl op⟩

/-- A layer switch that resolves to nothing leaves a route without a via alone. -/
theorem Switches.sameState_of_none (h : t.Switches op command t') (hnone : op.via = none)
    (hresolve : command.resolve op.layer t.board.enabledLayers = none) :
    t'.session.route? = some op := by
  have hbare := RouteOp.withdrawVia_of_none hnone
  rw [← congrArg RouteOp.layer hbare] at hresolve
  cases h with
  | nowhere _ _ hroute => rw [hroute, hbare]
  | jumped hresolve' | hung hresolve' => cases hresolve.symm.trans hresolve'

/-- Without a route, it leaves everything alone. -/
theorem switchLayer_of_none (hroute : t.session.route? = none)
    (hresolve : command.resolve t.session.activeLayer t.board.enabledLayers = none) :
    t.switchLayer command = .ok t := by
  have hsession : t.session.withdrawVia = t.session := by
    rw [Session.withdrawVia, hroute]
    rfl
  have htool : t.mapSession Session.withdrawVia = t := by
    rw [mapSession, hsession]
  rw [switchLayer, htool, goToLayer, hroute, Option.map_none, Option.getD_none, hresolve]
  rfl

/-- **A command that names the active layer** leaves what runs as it is exactly when a via that
hangs at the head is hung there again. -/
theorem switchLayer_staysPut_iff (hgoes : t.session.GoesOn) (hgoes' : t'.session.GoesOn)
    (hcurrent : command.target t.session.activeLayer t.board.enabledLayers =
      some t.session.activeLayer) (h : t.switchLayer command = .ok t') :
    t.StaysPut t' ↔ ∀ op, t.session.route? = some op → op.via.isSome = true →
      t.HangsAgain op command := by
  have hresolve := LayerCommand.resolve_of_target hcurrent
  constructor
  · intro hstays op hop hvia
    exact ((switchLayer_switches hop h).sameState_iff hvia).mp (hstays.route op hop)
  · intro hagain
    cases hroute : t.session.route? with
    | none =>
        cases (switchLayer_of_none hroute hresolve).symm.trans h
        refine ⟨rfl, fun op hop => ?_⟩
        cases hroute.symm.trans hop
    | some op =>
        have hswitches := switchLayer_switches hroute h
        obtain ⟨op', hop', hsame⟩ : ∃ op', t'.session.route? = some op' ∧ op.SameState op' := by
          cases hvia : op.via with
          | some p =>
              have hsome : op.via.isSome = true := by rw [hvia, Option.isSome_some]
              exact (hswitches.sameState_iff hsome).mpr (hagain op hroute hsome)
          | none =>
              have hlayer : t.session.activeLayer = op.layer := by
                rw [hgoes op hroute, nextLayer, hvia]
              exact ⟨op, hswitches.sameState_of_none hvia (hlayer ▸ hresolve), .refl op⟩
        refine ⟨?_, fun op₁ hop₁ => ?_⟩
        · rw [hgoes' op' hop', hgoes op hroute, hsame.nextLayer]
        · cases hroute.symm.trans hop₁
          exact ⟨op', hop', hsame⟩

/-- **In every reachable state**, a command that names the active layer leaves what runs as it
is exactly when a via that hangs at the head is hung there again as it was.  A via other than a
through via never is. -/
theorem reached_staysPut_iff {board : Board} {world : World} {options : Options}
    {rules : RuleSet} {search : TreeSearch} {confirms : Bool} {refusal : Option CommandRefusal}
    (hreached : (new board world options rules search confirms).Reaches t)
    (hcurrent : command.target t.session.activeLayer t.board.enabledLayers =
      some t.session.activeLayer) (h : t.handle (.switchLayer command) = .ok (t', refusal)) :
    (t.StaysPut t' ↔ ∀ op, t.session.route? = some op → op.via.isSome = true →
        t.HangsAgain op command) ∧
      ∀ op p, t.session.route? = some op → op.via = some p → p.via.viaType ≠ .through →
        ¬ t.StaysPut t' := by
  have hiff : t.StaysPut t' ↔ ∀ op, t.session.route? = some op → op.via.isSome = true →
      t.HangsAgain op command := by
    have hlogged := switchLayer_staysPut_iff
      (t := { t with log := t.log.record (.switchLayer command) }) hreached.goesOn.2
      (hreached.handle h).goesOn.2 hcurrent (Checked.of_tagged h)
    constructor
    · intro hstays op hop hvia
      exact (hlogged.mp (hstays.congr rfl) op hop hvia).congr rfl rfl rfl rfl
    · intro hagain
      exact (hlogged.mpr fun op hop hvia => (hagain op hop hvia).congr rfl rfl rfl rfl).congr rfl
  refine ⟨hiff, fun op p hop hvia hother hstays => hother ?_⟩
  have hsome : op.via.isSome = true := by rw [hvia, Option.isSome_some]
  exact (hiff.mp hstays op hop hsome).through hvia

/-- A switch to the layer behind a through via hangs the same via again. -/
theorem reached_staysPut_bottom :
    ∃ t t', (launch Board.standard Options.standard [] true).Reaches t ∧
      LayerCommand.bottom.target t.session.activeLayer t.board.enabledLayers =
        some t.session.activeLayer ∧
      t.handle (.switchLayer .bottom) = .ok (t', none) ∧
      (∃ op, t.session.route? = some op ∧ op.via.isSome = true) ∧ t.StaysPut t' := by
  obtain ⟨t, t', op, hserve, hcurrent, hhandle, hop, hvia, hagain⟩ : ∃ t t' op,
      (launch Board.standard Options.standard [] true).serve ((viaSwitch .bottom).take 2) = .ok t ∧
        LayerCommand.bottom.target t.session.activeLayer t.board.enabledLayers =
          some t.session.activeLayer ∧
        t.handle (.switchLayer .bottom) = .ok (t', none) ∧ t.session.route? = some op ∧
        op.via.isSome = true ∧ t.HangsAgain op .bottom := by
    refine ⟨_, _, _, by rfl, by rfl, by rfl, by rfl, by rfl, ?_⟩
    refine @HangsAgain.mk _ _ _ ⟨1⟩ ⟨.through, ⟨⟨0⟩, ⟨1⟩⟩⟩ (by rfl) (by rfl) (by rfl) (by rfl) ?_
    intro g hanswer
    cases hanswer
    rfl
  have hreached := Reaches.start.serve hserve
  refine ⟨t, t', hreached, hcurrent, hhandle, ⟨op, hop, hvia⟩, ?_⟩
  refine (reached_staysPut_iff hreached hcurrent hhandle).1.mpr fun op₁ hop₁ _ => ?_
  cases hop.symm.trans hop₁
  exact hagain

/-- A board with four layers, where vias may be blind. -/
def blindBoard : Board :=
  Board.empty (Stackup.ofCount 4) { Design.standard with blindBuriedAllowed := true }

/-- A route with a blind via at its head. -/
def blindVia : List Occasion :=
  [⟨.click ⟨0, 0⟩ false false, true, false⟩, ⟨.placeVia .blindBuried (some ⟨2⟩), true, false⟩]

/-- A switch to the layer behind a blind via makes it a through via. -/
theorem reached_not_staysPut :
    ∃ t t' op op', (launch blindBoard Options.standard [] true).serve blindVia = .ok t ∧
      (LayerCommand.inner 2).target t.session.activeLayer t.board.enabledLayers =
        some t.session.activeLayer ∧
      t.handle (.switchLayer (.inner 2)) = .ok (t', none) ∧ t.session.route? = some op ∧
      t'.session.route? = some op' ∧
      op.via.map (fun p => p.via.viaType) = some .blindBuried ∧
      op'.via.map (fun p => p.via.viaType) = some .through :=
  ⟨_, _, _, _, by rfl, by rfl, by rfl, by rfl, by rfl, by rfl, by rfl⟩

end Tool

end CopperRoute
