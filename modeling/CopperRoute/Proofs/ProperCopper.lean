import CopperRoute.Proofs.SoundCopper
import CopperRoute.Proofs.StagedCopper

/-!
# Copper with a proper place

A draft can be refused for its place or for its size.  Its place is **proper** when its
layers are in the stackup and, if it is a track, its ends are apart (`Draft.ProperIn`).
Then only its size can be at fault: a track without width, or a drill that does not fit its
via (`Shape.Missized`).

On a stackup of `Stackup.ofCount` every route has a proper place.  A head runs on a layer
of the stackup and repeats no point, the via policy joins layers of the stackup only, and
the outer layers, which a through via reaches, are layers of the stackup as well.  All of
this goes back into the steps when a head is fixed and comes back when a step is taken back
(`Rerouting.properIn`), so that it holds throughout every service of an engine that works
with the stackup of the board (`turn_keepsProper`).
-/

namespace CopperRoute

namespace Stackup

/-- A stackup contains the layers whose numbers lie below its count. -/
theorem contains_iff {s : Stackup} {l : LayerId} :
    s.contains l = true ↔ l.ordinal.toNat < 32 ∧ l.ordinal.toNat < s.copperCount.toNat := by
  rw [contains, Bool.and_eq_true, LayerId.isCopper, decide_eq_true_eq, decide_eq_true_eq]
  exact Iff.and UInt8.lt_iff_toNat_lt UInt8.lt_iff_toNat_lt

/-- A stackup has a layer, and no more than there are numbers for. -/
theorem copperCount_ofCount (n : UInt8) :
    1 ≤ (ofCount n).copperCount.toNat ∧ (ofCount n).copperCount.toNat ≤ 32 := by
  have hmax : (32 : UInt8).toNat = 32 := rfl
  have hone : (1 : UInt8).toNat = 1 := rfl
  show 1 ≤ (max 1 (min 32 n) : UInt8).toNat ∧ (max 1 (min 32 n) : UInt8).toNat ≤ 32
  by_cases hlarge : (32 : UInt8) ≤ n
  · rw [show min 32 n = 32 from if_pos hlarge]
    decide
  · have hsmall : n.toNat < 32 := by
      rw [UInt8.le_iff_toNat_le] at hlarge
      omega
    rw [show min 32 n = n from if_neg hlarge]
    by_cases hnone : (1 : UInt8) ≤ n
    · rw [show max 1 n = n from if_pos hnone]
      rw [UInt8.le_iff_toNat_le] at hnone
      omega
    · rw [show max 1 n = 1 from if_neg hnone]
      omega

/-- A stackup contains its top layer. -/
theorem contains_top (n : UInt8) : (ofCount n).contains (ofCount n).top = true := by
  have hcount := copperCount_ofCount n
  have hzero : (ofCount n).top.ordinal.toNat = 0 := rfl
  rw [contains_iff]
  omega

/-- A stackup contains its bottom layer. -/
theorem contains_bottom (n : UInt8) : (ofCount n).contains (ofCount n).bottom = true := by
  have hcount := copperCount_ofCount n
  have hone : (1 : UInt8) ≤ (ofCount n).copperCount := UInt8.le_iff_toNat_le.mpr hcount.1
  have hlast : (ofCount n).bottom.ordinal.toNat = (ofCount n).copperCount.toNat - 1 :=
    UInt8.toNat_sub_of_le _ _ hone
  rw [contains_iff]
  omega

end Stackup

/-- **A proper place.**  The layers are in the stackup, and a track has a length. -/
structure Draft.ProperIn (d : Draft) (s : Stackup) : Prop where
  first : s.contains d.layers.first = true
  last : s.contains d.layers.last = true
  length : ∀ axis width, d.shape = .segment axis width → axis.start ≠ axis.stop

/-- **A size at fault**: a track without width, or a via whose drill does not fit. -/
def Shape.Missized : Shape → Prop
  | .segment _ width => width = 0
  | .via _ diameter drill _ => drill = 0 ∨ diameter ≤ drill
  | .solid .. => False

instance : (s : Shape) → Decidable s.Missized
  | .segment .. => inferInstanceAs (Decidable (_ = _))
  | .via .. => inferInstanceAs (Decidable (_ ∨ _))
  | .solid .. => inferInstanceAs (Decidable False)

/-- Nothing is wrong with copper as such that has a length, if it is a track, and no size at
fault. -/
theorem Shape.fault?_eq_none_iff {s : Shape} : s.fault? = none ↔
    (∀ axis width, s = .segment axis width → axis.start ≠ axis.stop) ∧ ¬ s.Missized := by
  cases s with
  | segment axis width =>
      rw [fault?_segment, Missized, and_comm]
      simp
  | via position diameter drill type =>
      by_cases hbad : drill = 0 ∨ diameter ≤ drill
      · simp [fault?, Missized, hbad]
      · simp only [fault?, Missized, hbad, if_false]
        simp
  | solid position size => simp [fault?, Missized]

/-- A draft can be added when it has a proper place and no size at fault. -/
theorem Board.draftRejection?_eq_none_iff {b : Board} {d : Draft} :
    b.draftRejection? d = none ↔ d.ProperIn b.stackup ∧ ¬ d.shape.Missized := by
  have hlayers : b.layerFault? d.layers = none ↔
      b.stackup.contains d.layers.first = true ∧ b.stackup.contains d.layers.last = true := by
    simp [layerFault?]
  rw [draftRejection?, Option.or_eq_none_iff, hlayers, Shape.fault?_eq_none_iff]
  constructor
  · rintro ⟨⟨hfirst, hlast⟩, hlength, hsize⟩
    exact ⟨⟨hfirst, hlast, hlength⟩, hsize⟩
  · rintro ⟨⟨hfirst, hlast, hlength⟩, hsize⟩
    exact ⟨⟨hfirst, hlast⟩, hlength, hsize⟩

namespace Draft

variable {d : Draft} {s : Stackup}

/-- **What has a proper place is refused for its size only.** -/
theorem ProperIn.refused_iff {b : Board} (h : d.ProperIn b.stackup) :
    b.draftRejection? d ≠ none ↔ d.shape.Missized := by
  rw [Ne, Board.draftRejection?_eq_none_iff, not_and_not_right]
  exact forall_prop_of_true h

/-- A track of some length on a layer of the stackup is proper. -/
theorem properIn_track {axis : Segment} {layer : LayerId} (hlayer : s.contains layer = true)
    (hlength : axis.start ≠ axis.stop) (width : UInt32) (net : NetCode) :
    (track axis width layer net).ProperIn s := by
  refine ⟨hlayer, hlayer, fun axis' width' hshape => ?_⟩
  cases hshape
  exact hlength

/-- A via between layers of the stackup is proper. -/
theorem properIn_via {pair : LayerPair} (htop : s.contains pair.top = true)
    (hbottom : s.contains pair.bottom = true) (p : Point) (diameter drill : UInt32)
    (type : ViaType) (net : NetCode) : (via p diameter drill type pair net).ProperIn s := by
  have hends : (LayerRange.ofPair pair = ⟨pair.top, pair.bottom⟩) ∨
      LayerRange.ofPair pair = ⟨pair.bottom, pair.top⟩ := by
    unfold LayerRange.ofPair LayerRange.between
    split
    · exact .inl rfl
    · exact .inr rfl
  rcases hends with hends | hends
  · exact ⟨by simp [via, hends, htop], by simp [via, hends, hbottom], nofun⟩
  · exact ⟨by simp [via, hends, hbottom], by simp [via, hends, htop], nofun⟩

end Draft

/-- Tracks along points without repetition have a proper place. -/
theorem tracksAlong_properIn {r : RouteRequest} {s : Stackup} (hlayer : s.contains r.layer = true)
    {points : List Point} (hchain : points.IsChain (· ≠ ·)) :
    ∀ d ∈ tracksAlong r points, d.ProperIn s := by
  induction points with
  | nil => exact nofun
  | cons a rest ih =>
      cases rest with
      | nil => exact nofun
      | cons b rest =>
          obtain ⟨hab, hrest⟩ := List.isChain_cons_cons.mp hchain
          intro d hd
          rcases List.mem_cons.mp hd with rfl | hd
          · exact Draft.properIn_track hlayer hab _ _
          · exact ih hrest d hd

/-- **A head has a proper place** when its layer and those of its via are in the stackup. -/
theorem Board.routeGeometry_properIn {b : Board} {r : RouteRequest} {g : RouteGeometry}
    {s : Stackup} (h : b.routeGeometry r = .ok g) (hlayer : s.contains r.layer = true)
    (hvia : ∀ v, r.via = some v → s.contains v.span.top = true ∧ s.contains v.span.bottom = true) :
    ∀ d ∈ g.items, d.ProperIn s := by
  obtain ⟨points, hpoints, hitems⟩ := routeGeometry_items h
  intro d hd
  rw [hitems] at hd
  rcases List.mem_append.mp hd with htrack | hlast
  · exact tracksAlong_properIn hlayer (headPoints_isChain hpoints) d htrack
  · obtain ⟨v, hv, rfl⟩ := Option.map_eq_some_iff.mp (Option.mem_toList.mp hlast)
    obtain ⟨htop, hbottom⟩ := hvia v hv
    exact Draft.properIn_via htop hbottom _ _ _ _ _

/-- A legal via joins layers of the stackup. -/
theorem Via.resolve_inside {r : ViaRequest} {e : ViaEnvironment} {v : ResolvedVia}
    (h : resolve r e = .ok v) :
    e.stackup.contains v.pair.top = true ∧ e.stackup.contains v.pair.bottom = true := by
  unfold resolve at h
  split at h
  · cases h
  · simp only at h
    split at h
    · cases h
    · next hlegal =>
        cases h
        simp only [Bool.or_eq_true, Bool.not_eq_true', not_or, Bool.not_eq_false] at hlegal
        exact ⟨hlegal.1.2, hlegal.2⟩

/-- A via at a head that leads, and reaches, only to layers of the stackup. -/
structure PendingVia.LiesIn (p : PendingVia) (s : Stackup) : Prop where
  source : s.contains p.fromLayer = true
  target : s.contains p.toLayer = true
  top : s.contains p.via.span.top = true
  bottom : s.contains p.via.span.bottom = true

/-- Where the via leads decides where it lies. -/
theorem PendingVia.LiesIn.of_place {p q : PendingVia} {s : Stackup} (h : p.LiesIn s)
    (hplace : q.place = p.place) : q.LiesIn s := by
  obtain ⟨hspan, hsource, htarget⟩ : q.via.span = p.via.span ∧ q.fromLayer = p.fromLayer ∧
      q.toLayer = p.toLayer := by simpa [place] using hplace
  refine ⟨?_, ?_, ?_, ?_⟩
  · rw [hsource]
    exact h.source
  · rw [htarget]
    exact h.target
  · rw [hspan]
    exact h.top
  · rw [hspan]
    exact h.bottom

/-- A step with a proper place, and with a head and a via that can come back. -/
structure RouteStep.ProperIn (st : RouteStep) (s : Stackup) : Prop where
  items : ∀ d ∈ st.items, d.ProperIn s
  layer : s.contains st.layer = true
  via : ∀ p, st.via = some p → p.LiesIn s

/-- **A route with a proper place**: its head, the via there and all its steps. -/
structure RouteOp.ProperIn (op : RouteOp) (s : Stackup) : Prop where
  layer : s.contains op.layer = true
  via : ∀ p, op.via = some p → p.LiesIn s
  steps : ∀ st ∈ op.steps, st.ProperIn s

namespace RouteOp

variable {op op' : RouteOp} {s : Stackup}

/-- The copper of a proper route is proper. -/
theorem ProperIn.staged (h : op.ProperIn s) {d : Draft} (hd : d ∈ op.staged) : d.ProperIn s := by
  obtain ⟨st, hst, hd⟩ := List.mem_flatMap.mp hd
  exact (h.steps st hst).items d hd

/-- A new route on a layer of the stackup is proper. -/
theorem properIn_new {layer : LayerId} (hlayer : s.contains layer = true) (net : NetCode)
    (start : Point) (id : Option ItemId) (sizes : Sizes) :
    (new net start id layer sizes).ProperIn s := by
  refine ⟨hlayer, fun p hp => ?_, fun st hst => ?_⟩
  · cases hp
  · cases hst

/-- Whether a route is proper depends on its way alone. -/
theorem ProperIn.of_sameWay (h : op.ProperIn s) (hsame : op.SameWay op') : op'.ProperIn s := by
  refine ⟨hsame.layer ▸ h.layer, fun p hp => ?_, hsame.steps ▸ h.steps⟩
  have hplaces := hsame.via
  rw [hp, Option.map_some] at hplaces
  obtain ⟨q, hq, hplace⟩ := Option.map_eq_some_iff.mp hplaces.symm
  exact (h.via q hq).of_place hplace.symm

/-- A proper route without its via is proper. -/
theorem ProperIn.withdrawVia (h : op.ProperIn s) : op.withdrawVia.ProperIn s := by
  unfold RouteOp.withdrawVia
  split
  · next p hp => exact ⟨(h.via p hp).source, fun _ hnone => (by cases hnone), h.steps⟩
  · exact h

/-- A proper route with one step less is proper. -/
theorem ProperIn.undoStep (h : op.ProperIn s) (hundo : op.undoStep = some op') :
    op'.ProperIn s := by
  obtain ⟨st, hst, rfl⟩ := Option.map_eq_some_iff.mp hundo
  have hlast := h.steps st (List.mem_of_getLast? hst)
  exact ⟨hlast.layer, hlast.via, fun st' hst' => h.steps st' (List.dropLast_subset _ hst')⟩

/-- The layer behind a legal via is in the stackup, and so are those that its hole
reaches. -/
theorem ProperIn.hangVia {n : UInt8} {b : Board} {target : Option LayerId} {viaType : ViaType}
    {v : ResolvedVia} (h : op.ProperIn (Stackup.ofCount n)) (hb : b.stackup = Stackup.ofCount n)
    (rules : RuleSet)
    (hlegal : Via.resolve ⟨op.layer, target, viaType⟩ (ViaEnvironment.ofBoard b) = .ok v) :
    (op.hangVia b rules v).ProperIn (Stackup.ofCount n) := by
  obtain ⟨htop, hbottom⟩ := Via.resolve_inside hlegal
  obtain ⟨hjoins, _, _⟩ := Via.resolve_joins hlegal
  obtain ⟨across, hacross, hend⟩ := LayerPair.paired_isSome hjoins
  have hstackup : (ViaEnvironment.ofBoard b).stackup = Stackup.ofCount n := hb
  rw [hstackup] at htop hbottom
  have htarget : (Stackup.ofCount n).contains across = true := by
    rcases hend with rfl | rfl
    · exact htop
    · exact hbottom
  have hspan : (Stackup.ofCount n).contains (v.span b.stackup).top = true ∧
      (Stackup.ofCount n).contains (v.span b.stackup).bottom = true := by
    unfold ResolvedVia.span
    rw [hb]
    cases v.viaType with
    | through => exact ⟨Stackup.contains_top n, Stackup.contains_bottom n⟩
    | blindBuried | microvia => exact ⟨htop, hbottom⟩
  refine ⟨h.layer, fun p hp => ?_, h.steps⟩
  cases hp
  refine ⟨h.layer, ?_, hspan.1, hspan.2⟩
  show (Stackup.ofCount n).contains (Option.getD ((v.applyTo _).pairedLayer op.layer) _) = true
  rw [v.pairedLayer_applyTo, hacross]
  exact htarget

/-- What the engine answers to a route with a proper place. -/
theorem ProperIn.answer {w : World} {mode : RouterMode} {posture : Posture} {rounded : Bool}
    {g : RouteGeometry} (h : op.ProperIn s)
    (hanswer : w.route (op.request mode posture rounded) = .ok (.ok g)) :
    ∀ d ∈ g.items, d.ProperIn s := by
  obtain ⟨b, _, hg⟩ := World.route_eq_ok hanswer
  refine Board.routeGeometry_properIn hg h.layer fun v hv => ?_
  obtain ⟨p, hp, rfl⟩ := Option.map_eq_some_iff.mp hv
  exact ⟨(h.via p hp).top, (h.via p hp).bottom⟩

/-- A proper route with one step more is proper, if the engine drew the head. -/
theorem ProperIn.pushStep {w : World} {mode : RouterMode} {posture : Posture} {rounded : Bool}
    {g : RouteGeometry} (h : op.ProperIn s)
    (hanswer : w.route (op.request mode posture rounded) = .ok (.ok g)) :
    (op.pushStep g).ProperIn s := by
  refine ⟨?_, fun _ hnone => (by cases hnone), fun st hst => ?_⟩
  · -- behind its via, or on the layer of the head
    cases hvia : op.via with
    | some p =>
        have hlayer : (op.pushStep g).layer = p.toLayer := by simp only [RouteOp.pushStep, hvia]
        rw [hlayer]
        exact (h.via p hvia).target
    | none =>
        obtain ⟨b, _, hg⟩ := World.route_eq_ok hanswer
        have hstop : (op.pushStep g).layer = op.layer := by
          simp only [RouteOp.pushStep, hvia]
          rw [Board.routeGeometry_stopLayer hg]
          simp [Board.headLayer, request, hvia]
        rw [hstop]
        exact h.layer
  · rcases List.mem_append.mp hst with hold | hnew
    · exact h.steps st hold
    · rw [List.mem_singleton.mp hnew]
      exact ⟨h.answer hanswer, h.layer, h.via⟩

end RouteOp

/-- The engine lets a head go on directly only to a layer of its world. -/
theorem World.switchLayer_direct {w : World} {r : RouteRequest} {layer : LayerId}
    (h : w.switchLayer r layer = .direct) : ∃ b, w = some b ∧ b.stackup.contains layer = true := by
  cases w with
  | none => cases h
  | some b =>
      refine ⟨b, rfl, ?_⟩
      by_cases hinside : b.stackup.contains layer = true
      · exact hinside
      · simp [switchLayer, hinside] at h

namespace Tool

variable {t t' : Tool} {c : Command} {n : UInt8}

/-- Every way that a command can change a route with a proper place to has one, when the head
goes on directly only to layers of the stackup. -/
theorem Rerouting.properIn_of_jumps {op way : RouteOp} (hchange : t.Rerouting op c way)
    (hboard : t.board.stackup = Stackup.ofCount n)
    (hjumps : ∀ command layer,
      LayerCommand.resolve command op.withdrawVia.layer t.board.enabledLayers = some layer →
        t.world.switchLayer (t.asks op.withdrawVia) layer = .direct →
          (Stackup.ofCount n).contains layer = true)
    (h : op.ProperIn (Stackup.ofCount n)) : way.ProperIn (Stackup.ofCount n) := by
  cases hchange with
  | kept => exact h
  | extended hanswer => exact (h.of_sameWay (op.sameWay_aim ..)).pushStep hanswer
  | undone hundo => exact h.undoStep hundo
  | withdrawn => exact h.withdrawVia
  | hung _ hlegal => exact h.hangVia hboard t.rules hlegal
  | jumped hresolve hdirect =>
      exact ⟨hjumps _ _ hresolve hdirect, h.withdrawVia.via, h.withdrawVia.steps⟩
  | hungBelow hlegal => exact h.withdrawVia.hangVia hboard t.rules hlegal

/-- An engine that works with the stackup sees to that. -/
theorem Rerouting.properIn {op way : RouteOp} (hchange : t.Rerouting op c way)
    (hboard : t.board.stackup = Stackup.ofCount n)
    (hworld : ∀ b, t.world = some b → b.stackup = Stackup.ofCount n)
    (h : op.ProperIn (Stackup.ofCount n)) : way.ProperIn (Stackup.ofCount n) := by
  refine hchange.properIn_of_jumps hboard (fun _ layer _ hdirect => ?_) h
  obtain ⟨b, hb, hinside⟩ := World.switchLayer_direct hdirect
  rw [hworld b hb] at hinside
  exact hinside

/-- **The invariant.**  All boards, also that of the engine, have one stackup, and the
running route has a proper place in it. -/
structure KeepsProper (s : Stackup) (t : Tool) : Prop where
  orderly : t.Orderly
  boards : ∀ b ∈ t.boards, b.stackup = s
  world : ∀ b, t.world = some b → b.stackup = s
  route : ∀ op, t.session.route? = some op → op.ProperIn s

/-- The board on the table has the stackup. -/
theorem KeepsProper.board {s : Stackup} (ht : t.KeepsProper s) : t.board.stackup = s :=
  ht.boards _ t.board_mem_boards

/-- The answers of the host do not touch the invariant. -/
theorem KeepsProper.ready {s : Stackup} (ht : t.KeepsProper s) (k : Turn) :
    (t.ready k).KeepsProper s :=
  ⟨ht.orderly.ready k, ht.boards, ht.world, ht.route⟩

/-- What begins an occasion does not touch it either. -/
theorem KeepsProper.prompted {s : Stackup} (ht : t.KeepsProper s) (o : Occasion) :
    (t.prompted o).KeepsProper s :=
  ⟨ht.orderly.prompted o, ht.boards, ht.world, ht.route⟩

/-- **Every command** keeps the stackup, and routes in their proper place. -/
theorem execute_keepsProper {refusal : Option CommandRefusal}
    (ht : t.KeepsProper (Stackup.ofCount n)) (h : t.execute c = .ok (t', refusal)) :
    t'.KeepsProper (Stackup.ofCount n) := by
  have hreboards := (execute_changes ht.orderly h).boards
  have hboards : ∀ b ∈ t'.boards, b.stackup = Stackup.ofCount n := by
    refine hreboards.forall_boards ht.boards (fun _ hframe => ?_) fun changes report _ hcommit => ?_
    · exact hframe.stackup.trans ht.board
    · exact (Board.commit_takes hcommit).frame.stackup.trans ht.board
  have hboard := hboards _ t'.board_mem_boards
  refine ⟨(execute_advances ht.orderly h).orderly, hboards, fun b hb => ?_, fun op' hop' => ?_⟩
  · rcases hreboards.world with hsame | hnone | hloaded
    · exact ht.world b (hsame ▸ hb)
    · cases hnone.symm.trans hb
    · cases hloaded.symm.trans hb
      exact hboard
  · cases execute_reroutes ht.orderly hop' h with
    | began _ _ hopens hsame =>
        rw [hopens.fresh]
        refine RouteOp.properIn_new ?_ _ _ _ _
        have hcopper := hopens.copper
        rw [← hsame, hboard, hopens.fresh] at hcopper
        exact hcopper
    | changed hop hchange hsame _ =>
        exact (hchange.properIn ht.board ht.world (ht.route _ hop)).of_sameWay hsame

/-- Every turn keeps the invariant. -/
theorem turn_keepsProper {k : Turn} (ht : t.KeepsProper (Stackup.ofCount n))
    (h : t.turn k = .ok t') : t'.KeepsProper (Stackup.ofCount n) := by
  obtain ⟨refusal, h⟩ := turn_eq_ok.mp h
  exact execute_keepsProper (ht.ready k) h

/-- An engine that has the board of the tool loaded knows its stackup. -/
theorem stackup_of_loaded {board : Board} :
    ∀ b, (some board : World) = some b → b.stackup = board.stackup := by
  intro b hb
  cases hb
  rfl

/-- A new tool has it. -/
theorem keepsProper_new {board : Board} {world : World} {s : Stackup} (hboard : board.stackup = s)
    (hworld : ∀ b, world = some b → b.stackup = s) (options : Options) (rules : RuleSet)
    (search : TreeSearch) (confirms : Bool) :
    (new board world options rules search confirms).KeepsProper s := by
  refine ⟨orderly_new board world options rules search confirms, fun b hb => ?_, hworld,
    fun op hop => ?_⟩
  · rw [eq_of_mem_boards_new hb]
    exact hboard
  · cases hop

end Tool

end CopperRoute
