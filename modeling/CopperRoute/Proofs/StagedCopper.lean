import CopperRoute.Proofs.HeadGeometry
import CopperRoute.Proofs.RouteChanges

/-!
# The fixed copper of a route

A step leads from the point where its head started to the point where the next head
starts (`RouteStep.LeadsTo`).  Steps come and go at the end of the route only, so the
fixed steps are **laid** one behind the other (`Laid`): what is fixed is always one
chain of copper in which neighbours touch.

Whether neighbours also share a layer is decided where one step meets the next.  They
do as long as every head lies on a layer that the last fixed copper reaches
(`Grounded`).  The only command that can take a head elsewhere is a layer switch
without a via, from copper that the engine takes for the start of the head although
the route never ended there (`LeavesCopper`).
-/

namespace CopperRoute

/-- A via at a head on this layer: it leads away from the layer, and its hole reaches
the layers on both sides. -/
def PendingVia.Fits (layer : LayerId) (p : PendingVia) : Prop :=
  p.fromLayer = layer ∧ (LayerRange.ofPair p.via.span).contains layer = true ∧
    (LayerRange.ofPair p.via.span).contains p.toLayer = true

/-- Where the via leads decides whether it fits. -/
theorem PendingVia.Fits.of_place {layer : LayerId} {p q : PendingVia} (h : p.Fits layer)
    (hplace : q.place = p.place) : q.Fits layer := by
  obtain ⟨hspan, hfrom, hto⟩ : q.via.span = p.via.span ∧ q.fromLayer = p.fromLayer ∧
      q.toLayer = p.toLayer := by simpa [place] using hplace
  unfold Fits
  rw [hspan, hfrom, hto]
  exact h

namespace RouteStep

/-- The layer on which a route goes on behind this step. -/
def exitLayer (s : RouteStep) : LayerId :=
  match s.via with
  | some pending => pending.toLayer
  | none => s.layer

/-- **A step leads** from where its head started to this point, through its via to the
layer behind it. -/
structure LeadsTo (s : RouteStep) (q : Point) : Prop where
  copper : s.items ≠ []
  leads : Leads s.start s.layer s.items q s.exitLayer
  via : ∀ p, s.via = some p → p.Fits s.layer

/-- The last copper of the step reaches this layer. -/
def Reaches (s : RouteStep) (l : LayerId) : Prop :=
  ∀ d, s.items.getLast? = some d → d.layers.contains l = true

/-- Where the two steps meet, their copper shares a layer. -/
def Meets (s s' : RouteStep) : Prop :=
  ∀ d, s.items.getLast? = some d → ∀ e, s'.items.head? = some e →
    d.layers.intersects e.layers = true

/-- A step reaches the layer on which the route goes on behind it. -/
theorem LeadsTo.reaches {s : RouteStep} {q : Point} (h : s.LeadsTo q) : s.Reaches s.exitLayer :=
  fun d hd => (h.leads.last d hd).2

/-- A step meets the next one when it reaches the layer of that. -/
theorem LeadsTo.meets {s s' : RouteStep} {q : Point} (h' : s'.LeadsTo q)
    (hreaches : s.Reaches s'.layer) : s.Meets s' := by
  intro d hd e he
  exact LayerRange.intersects_of_contains (hreaches d hd) (h'.leads.first e he).2

end RouteStep

/-- **Laid steps.**  Each leads to the start of the next one, the last one to `p`. -/
inductive Laid : List RouteStep → Point → Prop
  | nil (p : Point) : Laid [] p
  | snoc {steps : List RouteStep} {s : RouteStep} {p : Point} (before : Laid steps s.start)
      (here : s.LeadsTo p) : Laid (steps ++ [s]) p

/-- **Grounded steps.**  Each reaches the layer of the next one, the last one reaches
`l`. -/
inductive Grounded : List RouteStep → LayerId → Prop
  | nil (l : LayerId) : Grounded [] l
  | snoc {steps : List RouteStep} {s : RouteStep} {l : LayerId} (before : Grounded steps s.layer)
      (here : s.Reaches l) : Grounded (steps ++ [s]) l

/-- The copper of several steps. -/
def stagedCopper (steps : List RouteStep) : List Draft := steps.flatMap RouteStep.items

/-- One step more stages its copper behind that of the others. -/
theorem stagedCopper_snoc (steps : List RouteStep) (s : RouteStep) :
    stagedCopper (steps ++ [s]) = stagedCopper steps ++ s.items := by
  simp [stagedCopper]

/-- The last grounded step can be taken back. -/
theorem Grounded.dropLast {steps : List RouteStep} {s : RouteStep} {l : LayerId}
    (h : Grounded steps l) (hs : steps.getLast? = some s) :
    Grounded steps.dropLast s.layer ∧ s.Reaches l := by
  cases h with
  | nil => cases hs
  | snoc before here =>
      rw [List.getLast?_concat] at hs
      cases hs
      rw [List.dropLast_concat]
      exact ⟨before, here⟩

namespace Laid

variable {steps : List RouteStep} {s : RouteStep} {p : Point}

/-- The last step can be taken back. -/
theorem dropLast (h : Laid steps p) (hs : steps.getLast? = some s) :
    Laid steps.dropLast s.start ∧ s.LeadsTo p := by
  cases h with
  | nil => cases hs
  | snoc before here =>
      rw [List.getLast?_concat] at hs
      cases hs
      rw [List.dropLast_concat]
      exact ⟨before, here⟩

/-- The last copper of all is that of the last step. -/
theorem getLast?_stagedCopper (h : Laid steps p) :
    (stagedCopper steps).getLast? = steps.getLast?.bind fun s => s.items.getLast? := by
  cases h with
  | nil => rfl
  | snoc before here =>
      rw [stagedCopper_snoc, List.getLast?_append_of_ne_nil _ here.copper, List.getLast?_concat]
      rfl

/-- The last copper of all lies where the next head starts. -/
theorem anchor (h : Laid steps p) {d : Draft} (hd : (stagedCopper steps).getLast? = some d) :
    p ∈ d.shape.anchors := by
  rw [h.getLast?_stagedCopper] at hd
  obtain ⟨s, hs, hd⟩ := Option.bind_eq_some_iff.mp hd
  exact ((h.dropLast hs).2.leads.last d hd).1

/-- **Neighbours touch.** -/
theorem isChain_touches (h : Laid steps p) : (stagedCopper steps).IsChain Draft.Touches := by
  induction h with
  | nil p => exact .nil
  | @snoc steps s p before here ih =>
      rw [stagedCopper_snoc]
      refine List.isChain_append.mpr ⟨ih, here.leads.joined.imp fun _ _ hj => hj.1, ?_⟩
      intro d hd e he
      exact ⟨s.start, before.anchor hd, (here.leads.first e he).1⟩

/-- **Neighbours are joined** exactly when each step shares a layer with the next
where the two meet. -/
theorem isChain_joined_iff (h : Laid steps p) :
    (stagedCopper steps).IsChain Draft.Joined ↔ steps.IsChain RouteStep.Meets := by
  induction h with
  | nil p => exact ⟨fun _ => .nil, fun _ => .nil⟩
  | @snoc steps s p before here ih =>
      rw [stagedCopper_snoc, List.isChain_append, List.isChain_append, ih]
      constructor
      · rintro ⟨hsteps, -, hseam⟩
        refine ⟨hsteps, .singleton s, ?_⟩
        intro s₀ hs₀ s' hs'
        cases hs'
        intro d hd e he
        have hlast : (stagedCopper steps).getLast? = some d := by
          rw [before.getLast?_stagedCopper, hs₀]
          exact hd
        exact (hseam d hlast e he).2
      · rintro ⟨hsteps, -, hseam⟩
        refine ⟨hsteps, here.leads.joined, ?_⟩
        intro d hd e he
        refine ⟨⟨s.start, before.anchor hd, (here.leads.first e he).1⟩, ?_⟩
        have hlast : (stagedCopper steps).getLast? = some d := hd
        rw [before.getLast?_stagedCopper] at hlast
        obtain ⟨s₀, hs₀, hd₀⟩ := Option.bind_eq_some_iff.mp hlast
        exact hseam s₀ hs₀ s rfl d hd₀ e he

/-- Grounded steps meet. -/
theorem isChain_meets (h : Laid steps p) {l : LayerId} (hground : Grounded steps l) :
    steps.IsChain RouteStep.Meets := by
  induction h generalizing l with
  | nil p => exact .nil
  | @snoc steps s p before here ih =>
      obtain ⟨hbefore, _⟩ := hground.dropLast List.getLast?_concat
      rw [List.dropLast_concat] at hbefore
      refine List.isChain_append.mpr ⟨ih hbefore, .singleton s, ?_⟩
      intro s₀ hs₀ s' hs'
      cases hs'
      exact here.meets (hbefore.dropLast hs₀).2

end Laid

/-- **A traced route.**  Its steps are laid up to its head, and the via at the head
fits. -/
structure RouteOp.Traced (op : RouteOp) : Prop where
  laid : Laid op.steps op.start
  via : ∀ p, op.via = some p → p.Fits op.layer

namespace RouteOp

/-- A new route is traced. -/
theorem traced_new (net : NetCode) (start : Point) (startItem : Option ItemId) (layer : LayerId)
    (sizes : Sizes) : (new net start startItem layer sizes).Traced :=
  ⟨.nil start, fun _ hp => by cases hp⟩

/-- Whether a route is traced depends on its way alone. -/
theorem Traced.of_sameWay {op op' : RouteOp} (h : op.Traced) (hsame : op.SameWay op') :
    op'.Traced := by
  refine ⟨?_, fun p hp => ?_⟩
  · rw [hsame.steps, hsame.start]
    exact h.laid
  · have hplaces := hsame.via
    rw [hp, Option.map_some] at hplaces
    obtain ⟨q, hq, hplace⟩ := Option.map_eq_some_iff.mp hplaces.symm
    rw [hsame.layer]
    exact (h.via q hq).of_place hplace.symm

/-- The via that a command hangs to a head fits. -/
theorem Traced.hangVia {op : RouteOp} {b : Board} {target : Option LayerId} {viaType : ViaType}
    {v : ResolvedVia} (h : op.Traced) (rules : RuleSet)
    (hlegal : Via.resolve ⟨op.layer, target, viaType⟩ (ViaEnvironment.ofBoard b) = .ok v) :
    (op.hangVia b rules v).Traced := by
  obtain ⟨hjoins, _, hspan⟩ := Via.resolve_joins hlegal
  obtain ⟨across, hacross, hend⟩ := LayerPair.paired_isSome hjoins
  refine ⟨h.laid, fun p hp => ?_⟩
  cases hp
  refine ⟨rfl, hspan _ hjoins, ?_⟩
  show LayerRange.contains _ (Option.getD ((v.applyTo _).pairedLayer op.layer) _) = true
  rw [v.pairedLayer_applyTo, hacross]
  exact hspan across hend

/-- A traced route without its via is traced. -/
theorem Traced.withdrawVia {op : RouteOp} (h : op.Traced) : op.withdrawVia.Traced := by
  unfold RouteOp.withdrawVia
  split
  · exact ⟨h.laid, fun _ hp => by cases hp⟩
  · exact h

/-- Taking the via at the head back does not take the head to another layer. -/
theorem Traced.layer_withdrawVia {op : RouteOp} (h : op.Traced) :
    op.withdrawVia.layer = op.layer := by
  unfold RouteOp.withdrawVia
  split
  · next pending hpending => exact (h.via pending hpending).1
  · rfl

/-- A traced route with one step less is traced. -/
theorem Traced.undoStep {op op' : RouteOp} (h : op.Traced) (hundo : op.undoStep = some op') :
    op'.Traced := by
  obtain ⟨s, hs, rfl⟩ := Option.map_eq_some_iff.mp hundo
  obtain ⟨hbefore, hlast⟩ := h.laid.dropLast hs
  exact ⟨hbefore, hlast.via⟩

/-- The step that a head becomes. -/
def stepOf (op : RouteOp) (g : RouteGeometry) : RouteStep :=
  ⟨g.items, g.length, op.start, op.startItem, op.layer, op.via⟩

/-- **A head that the engine gave** becomes a step that leads on. -/
theorem Traced.stepOf_leadsTo {op : RouteOp} {w : World} {mode : RouterMode} {posture : Posture}
    {rounded : Bool} {g : RouteGeometry} (h : op.Traced)
    (hanswer : w.route (op.request mode posture rounded) = .ok (.ok g)) (hcopper : g.items ≠ []) :
    (op.stepOf g).LeadsTo g.stop ∧ (op.pushStep g).layer = (op.stepOf g).exitLayer := by
  obtain ⟨b, _, hg⟩ := World.route_eq_ok hanswer
  have hstop := Board.routeGeometry_stopLayer hg
  refine ⟨⟨hcopper, Board.routeGeometry_leads hg ?_ ?_, h.via⟩, ?_⟩
  · intro hnone
    have hvia : op.via = none := by simpa [request] using hnone
    simp [stepOf, RouteStep.exitLayer, hvia, request]
  · intro v hv
    obtain ⟨p, hp, rfl⟩ := Option.map_eq_some_iff.mp hv
    obtain ⟨_, hhere, hthere⟩ := h.via p hp
    refine ⟨hhere, ?_⟩
    simp only [stepOf, RouteStep.exitLayer, hp]
    exact hthere
  · cases hvia : op.via with
    | none => simp [pushStep, stepOf, RouteStep.exitLayer, hvia, hstop, Board.headLayer, request]
    | some p => simp [pushStep, stepOf, RouteStep.exitLayer, hvia]

/-- A traced route with one step more is traced, if the engine drew the head. -/
theorem Traced.pushStep {op : RouteOp} {w : World} {mode : RouterMode} {posture : Posture}
    {rounded : Bool} {g : RouteGeometry} (h : op.Traced)
    (hanswer : w.route (op.request mode posture rounded) = .ok (.ok g)) (hcopper : g.items ≠ []) :
    (op.pushStep g).Traced :=
  ⟨.snoc h.laid (h.stepOf_leadsTo hanswer hcopper).1, fun _ hp => by cases hp⟩

end RouteOp

/-- Grounded steps are grounded on every layer that the last of them reaches. -/
theorem Grounded.of_reaches {steps : List RouteStep} {l l' : LayerId} (h : Grounded steps l)
    (hlast : ∀ s, steps.getLast? = some s → s.Reaches l') : Grounded steps l' := by
  cases h with
  | nil => exact .nil l'
  | snoc before _ => exact .snoc before (hlast _ List.getLast?_concat)

/-- Taking back the via leaves the fixed steps. -/
theorem RouteOp.steps_withdrawVia (op : RouteOp) : op.withdrawVia.steps = op.steps := by
  unfold RouteOp.withdrawVia
  split <;> rfl

namespace Tool

/-- Every way that a command can change a traced route to is traced. -/
theorem Rerouting.traced {t : Tool} {op way : RouteOp} {c : Command}
    (hchange : t.Rerouting op c way) (h : op.Traced) : way.Traced := by
  cases hchange with
  | kept => exact h
  | extended hanswer _ hcopper => exact (h.of_sameWay (op.sameWay_aim ..)).pushStep hanswer hcopper
  | undone hundo => exact h.undoStep hundo
  | withdrawn => exact h.withdrawVia
  | hung _ hlegal => exact h.hangVia t.rules hlegal
  | jumped =>
      refine ⟨h.withdrawVia.laid, fun p hp => ?_⟩
      have hnone := op.via_withdrawVia
      rw [show op.withdrawVia.via = some p from hp] at hnone
      cases hnone
  | hungBelow hlegal => exact h.withdrawVia.hangVia t.rules hlegal

/-- However a route was made of a traced one, it is traced. -/
theorem Reroutes.traced {t t' : Tool} {c : Command} {op' : RouteOp} (h : t.Reroutes c t' op')
    (ht : ∀ op, t.session.route? = some op → op.Traced) : op'.Traced := by
  cases h with
  | began _ _ hopens _ =>
      rw [hopens.fresh]
      exact RouteOp.traced_new ..
  | changed hop hchange hsame _ => exact (hchange.traced (ht _ hop)).of_sameWay hsame

/-- The running route, if there is one, is traced; and the tool is at rest. -/
structure Traces (t : Tool) : Prop where
  orderly : t.Orderly
  traced : ∀ op, t.session.route? = some op → op.Traced

/-- Every turn keeps the running route traced. -/
theorem turn_traces {t t' : Tool} {k : Turn} (ht : t.Traces) (h : t.turn k = .ok t') :
    t'.Traces := by
  refine ⟨(turn_advances ht.orderly h).orderly, fun op' hop' => ?_⟩
  obtain ⟨refusal, h⟩ := turn_eq_ok.mp h
  exact (execute_reroutes (ht.orderly.ready k) hop' h).traced ht.traced

/-- A new tool has no route to trace. -/
theorem traces_new (board : Board) (world : World) (options : Options) (rules : RuleSet)
    (search : TreeSearch) (confirms : Bool) :
    (new board world options rules search confirms).Traces :=
  ⟨orderly_new board world options rules search confirms, fun _ hop => by cases hop⟩

/-- The fixed copper of the running route is one chain in which neighbours touch. -/
def Touching (t : Tool) : Prop :=
  ∀ op, t.session.route? = some op → op.staged.IsChain Draft.Touches

/-- **Connected copper**: in this chain, neighbours share a layer too. -/
def Connected (t : Tool) : Prop :=
  ∀ op, t.session.route? = some op → op.staged.IsChain Draft.Joined

/-- A fix makes a step whose copper shares no layer with the end of the step before. -/
inductive FixesApart (t : Tool) : Command → Prop
  | mk {p : Point} {id : Option ItemId} {op : RouteOp} {g : RouteGeometry} {s : RouteStep}
      (hop : t.session.route? = some op)
      (hanswer : t.world.route (t.asks (op.aim p id op.ortho)) = .ok (.ok g))
      (hmissed : g.reachedTarget = false) (hcopper : g.items ≠ [])
      (hlast : op.steps.getLast? = some s)
      (hapart : ¬ s.Meets ((op.aim p id op.ortho).stepOf g)) : FixesApart t (.fixRoute p id false)

/-- The head of a route with fixed steps goes directly to a layer that the last fixed
copper does not reach. -/
inductive LeavesCopper (t : Tool) : Command → Prop
  | mk {command : LayerCommand} {layer : LayerId} {op : RouteOp} {s : RouteStep}
      (hop : t.session.route? = some op)
      (hresolve : command.resolve op.withdrawVia.layer t.board.enabledLayers = some layer)
      (hdirect : t.world.switchLayer (t.asks op.withdrawVia) layer = .direct)
      (hlast : op.steps.getLast? = some s) (hleaves : ¬ s.Reaches layer) :
      LeavesCopper t (.switchLayer command)

/-- Traced copper is a chain in which neighbours touch. -/
theorem Traces.touching {t : Tool} (ht : t.Traces) : t.Touching :=
  fun op hop => (ht.traced op hop).laid.isChain_touches

/-- Traced copper is connected exactly when each step meets the next one. -/
theorem Traces.connected_iff {t : Tool} (ht : t.Traces) :
    t.Connected ↔ ∀ op, t.session.route? = some op → op.steps.IsChain RouteStep.Meets := by
  constructor
  · intro h op hop
    exact (ht.traced op hop).laid.isChain_joined_iff.mp (h op hop)
  · intro h op hop
    exact (ht.traced op hop).laid.isChain_joined_iff.mpr (h op hop)

/-- Among the ways that a command can change a route to, only a fix can bring copper
that does not meet what is there. -/
theorem Rerouting.isChain_meets {t : Tool} {op way : RouteOp} {c : Command}
    (hchange : t.Rerouting op c way) (hop : t.session.route? = some op)
    (h : op.steps.IsChain RouteStep.Meets) (hgood : ¬ t.FixesApart c) :
    way.steps.IsChain RouteStep.Meets := by
  cases hchange with
  | kept => exact h
  | @extended p id g hanswer hmissed hcopper =>
      refine List.isChain_append.mpr ⟨h, .singleton _, ?_⟩
      intro s hs s' hs'
      cases hs'
      by_contra hapart
      exact hgood ⟨hop, hanswer, hmissed, hcopper, hs, hapart⟩
  | undone hundo =>
      obtain ⟨s, hs, rfl⟩ := Option.map_eq_some_iff.mp hundo
      exact h.dropLast
  | withdrawn =>
      rw [op.steps_withdrawVia]
      exact h
  | hung => exact h
  | jumped =>
      show op.withdrawVia.steps.IsChain RouteStep.Meets
      rw [op.steps_withdrawVia]
      exact h
  | hungBelow =>
      show op.withdrawVia.steps.IsChain RouteStep.Meets
      rw [op.steps_withdrawVia]
      exact h

/-- **A turn keeps the copper connected** exactly when it does not fix a step apart. -/
theorem turn_connected_iff {t t' : Tool} {k : Turn} (ht : t.Traces) (hconnected : t.Connected)
    (h : t.turn k = .ok t') : t'.Connected ↔ ¬ (t.ready k).FixesApart k.command := by
  have ht' := turn_traces ht h
  rw [ht'.connected_iff]
  rw [ht.connected_iff] at hconnected
  obtain ⟨refusal, h⟩ := turn_eq_ok.mp h
  constructor
  · intro hmeets hbad
    generalize k.command = c at h hbad
    cases hbad with
    | @mk p id op g s hop hanswer hmissed hcopper hlast hapart =>
        obtain ⟨hextended, _⟩ :=
          fixRoute_extends hop hanswer hmissed hcopper (Checked.of_tagged h)
        have hchain := hmeets _ hextended
        have hseam := (List.isChain_append.mp hchain).2.2
        exact hapart (hseam s hlast _ rfl)
  · intro hgood op' hop'
    cases execute_reroutes (ht.orderly.ready k) hop' h with
    | began _ _ hopens _ =>
        rw [hopens.fresh]
        exact .nil
    | changed hop hchange hsame _ =>
        rw [hsame.steps]
        exact hchange.isChain_meets hop (hconnected _ hop) hgood

/-- As long as no head leaves the copper, every head lies on a layer that the last
fixed copper reaches. -/
theorem Rerouting.grounded {t : Tool} {op way : RouteOp} {c : Command}
    (hchange : t.Rerouting op c way) (hop : t.session.route? = some op) (h : op.Traced)
    (hground : Grounded op.steps op.layer) (hgood : ¬ t.LeavesCopper c) :
    Grounded way.steps way.layer := by
  have hwithdrawn : Grounded op.withdrawVia.steps op.withdrawVia.layer := by
    rw [op.steps_withdrawVia, h.layer_withdrawVia]
    exact hground
  cases hchange with
  | kept => exact hground
  | @extended p id g hanswer hmissed hcopper =>
      have haimed := h.of_sameWay (op.sameWay_aim p id op.ortho)
      obtain ⟨hleads, hlayer⟩ := haimed.stepOf_leadsTo hanswer hcopper
      rw [hlayer]
      exact .snoc hground hleads.reaches
  | undone hundo =>
      obtain ⟨s, hs, rfl⟩ := Option.map_eq_some_iff.mp hundo
      exact (hground.dropLast hs).1
  | withdrawn => exact hwithdrawn
  | hung => exact hground
  | @jumped command layer hresolve hdirect =>
      refine hwithdrawn.of_reaches fun s hs => ?_
      rw [op.steps_withdrawVia] at hs
      by_contra hleaves
      exact hgood ⟨hop, hresolve, hdirect, hs, hleaves⟩
  | hungBelow => exact hwithdrawn

/-- The running route, if there is one, is grounded besides. -/
structure Grounds (t : Tool) : Prop extends t.Traces where
  grounded : ∀ op, t.session.route? = some op → Grounded op.steps op.layer

/-- A turn keeps the running route grounded, unless its head leaves the copper. -/
theorem turn_grounds {t t' : Tool} {k : Turn} (ht : t.Grounds)
    (hgood : ¬ (t.ready k).LeavesCopper k.command) (h : t.turn k = .ok t') : t'.Grounds := by
  refine ⟨turn_traces ht.toTraces h, fun op' hop' => ?_⟩
  obtain ⟨refusal, h⟩ := turn_eq_ok.mp h
  cases execute_reroutes (ht.orderly.ready k) hop' h with
  | began _ _ hopens _ =>
      rw [hopens.fresh]
      exact .nil _
  | changed hop hchange hsame _ =>
      rw [hsame.steps, hsame.layer]
      exact hchange.grounded hop (ht.traced _ hop) (ht.grounded _ hop) hgood

/-- Grounded copper is connected. -/
theorem Grounds.connected {t : Tool} (ht : t.Grounds) : t.Connected :=
  ht.connected_iff.mpr fun op hop => (ht.traced op hop).laid.isChain_meets (ht.grounded op hop)

/-- **The fixed copper of a route** always touches from piece to piece.  It is connected
on common layers throughout a run exactly when no step is fixed apart from the one
before, and so whenever no head leaves the copper by a direct switch. -/
theorem run_connected (board : Board) (world : World) (options : Options) (rules : RuleSet)
    (search : TreeSearch) (confirms : Bool) (ks : List Turn) :
    (new board world options rules search confirms).Always Touching ks ∧
      ((new board world options rules search confirms).Always Connected ks ↔
        (new board world options rules search confirms).Avoids FixesApart ks) ∧
      ((new board world options rules search confirms).Avoids LeavesCopper ks →
        (new board world options rules search confirms).Always Connected ks) := by
  have hnew := traces_new board world options rules search confirms
  have hstart : (new board world options rules search confirms).Connected := fun _ hop => by
    cases hop
  refine ⟨?_, ?_, ?_⟩
  · exact always_of_invariant (I := Traces) (fun _ _ _ => turn_traces) (fun _ => Traces.touching)
      hnew ks
  · exact always_iff_avoids (I := Traces) (fun _ _ _ ht _ => turn_traces ht)
      (fun _ _ _ => turn_connected_iff) hnew hstart
  · exact always_of_avoids (I := Grounds) (fun _ _ _ => turn_grounds) (fun _ => Grounds.connected)
      ⟨hnew, fun _ hop => by cases hop⟩

/-- A board with two pads of one net, on different layers. -/
def padsApart : Board :=
  { Board.standard with
    items := [⟨1, .solid ⟨0, 0⟩ 100000, 1, LayerRange.single ⟨0⟩, false, none⟩,
      ⟨2, .solid ⟨5000000, 0⟩ 100000, 1, LayerRange.single ⟨1⟩, false, none⟩]
    nextId := 3 }

/-- A route from the first pad that goes to the other layer by a via. -/
def viaTurns : List Turn :=
  [⟨.startRouting ⟨0, 0⟩ (some 1), true⟩, ⟨.fixRoute ⟨1000000, 0⟩ none false, true⟩,
    ⟨.placeVia .through none, true⟩, ⟨.fixRoute ⟨2000000, 0⟩ none false, true⟩]

/-- A route from the first pad that is fixed while the pointer names the second one,
which it does not end on, and then goes to the layer of that. -/
def strayTurns : List Turn :=
  [⟨.startRouting ⟨0, 0⟩ (some 1), true⟩, ⟨.fixRoute ⟨1000000, 0⟩ (some 2) false, true⟩,
    ⟨.switchLayer .bottom, true⟩, ⟨.fixRoute ⟨2000000, 0⟩ none false, true⟩]

/-- With the via, three pieces of copper are connected. -/
theorem run_connected_by_via :
    (launch padsApart Options.standard [] true).Avoids LeavesCopper viaTurns ∧
      (launch padsApart Options.standard [] true).Always Connected viaTurns ∧
      ∃ t op, (launch padsApart Options.standard [] true).run viaTurns = .ok t ∧
        t.session.route? = some op ∧ op.staged.length = 3 ∧ op.staged.IsChain Draft.Joined := by
  have havoids :
      (launch padsApart Options.standard [] true).Avoids LeavesCopper viaTurns :=
    fun _ _ => ⟨nofun, fun _ _ => ⟨nofun, fun _ _ => ⟨nofun, fun _ _ => ⟨nofun, trivial⟩⟩⟩⟩
  have halways := (run_connected padsApart (some padsApart) Options.standard _ _ true
    viaTurns).2.2 havoids
  obtain ⟨t, op, hrun, hop, hlength⟩ :
      ∃ t op, (launch padsApart Options.standard [] true).run viaTurns = .ok t ∧
        t.session.route? = some op ∧ op.staged.length = 3 :=
    ⟨_, _, by rfl, by rfl, by rfl⟩
  exact ⟨havoids, halways, t, op, hrun, hop, hlength, halways.last hrun op hop⟩

/-- Without it, two tracks in a row share no layer. -/
theorem run_not_connected :
    ¬ (launch padsApart Options.standard [] true).Always Connected strayTurns := by
  intro halways
  obtain ⟨t, op, hrun, hop, hstaged⟩ :
      ∃ t op, (launch padsApart Options.standard [] true).run strayTurns = .ok t ∧
        t.session.route? = some op ∧
        op.staged = [Draft.track ⟨⟨0, 0⟩, ⟨1000000, 0⟩⟩ 250000 ⟨0⟩ 1,
          Draft.track ⟨⟨1000000, 0⟩, ⟨2000000, 0⟩⟩ 250000 ⟨1⟩ 1] :=
    ⟨_, _, by rfl, by rfl, by rfl⟩
  have hchain := halways.last hrun op hop
  rw [hstaged] at hchain
  revert hchain
  decide

end Tool

end CopperRoute
