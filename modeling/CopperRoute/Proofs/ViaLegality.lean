import CopperRoute.Proofs.BoardChanges
import CopperRoute.Proofs.Intents
import CopperRoute.Proofs.StagedCopper

/-!
# Vias stay legal

Whether a via is **legal** depends on its type, on the layers it joins, and on the frame of
the board: a through via joins the outer layers, a blind or buried via two other layers of
the stackup, a microvia an outer layer and the one next to it; and all but through vias have
to be allowed and need inner layers (`Board.AllowsVia`).

The via policy lets no other vias through (`Via.resolve_allows`).  From there a via gets
into the steps of a route and onto the board, where drags move it.  None of this changes
its type or its layers, and no command changes the frame, so that all vias stay legal
(`serve_viasLegal`).  A via on the board was there in the beginning and has its size from
then, or it was added by a route and is wider than its drill.
-/

namespace CopperRoute

def LayerRange.pair (r : LayerRange) : LayerPair := ⟨r.first, r.last⟩

/-- **Legal vias** by type and layers. -/
def Board.AllowsVia (b : Board) : ViaType → LayerPair → Prop
  | .through, pair => pair = b.stackup.outerPair
  | .blindBuried, pair =>
    b.design.blindBuriedAllowed = true ∧ 2 < b.stackup.copperCount ∧
      b.stackup.contains pair.top = true ∧ b.stackup.contains pair.bottom = true ∧
      b.stackup.isFullSpan pair = false
  | .microvia, pair =>
    b.design.microviasAllowed = true ∧ 2 < b.stackup.copperCount ∧
      (pair = ⟨b.stackup.top, b.stackup.secondFromTop⟩ ∨
        pair = ⟨b.stackup.secondFromBottom, b.stackup.bottom⟩)

instance (b : Board) (type : ViaType) (pair : LayerPair) : Decidable (b.AllowsVia type pair) :=
  match type with
  | .through => inferInstanceAs (Decidable (_ = _))
  | .blindBuried => inferInstanceAs (Decidable (_ ∧ _))
  | .microvia => inferInstanceAs (Decidable (_ ∧ _))

/-- If the draft is a via, it is legal. -/
def Draft.LegalOn (d : Draft) (b : Board) : Prop :=
  ∀ position diameter drill type, d.shape = .via position diameter drill type →
    b.AllowsVia type d.layers.pair

theorem Board.SameFrame.allowsVia {b b' : Board} (h : b.SameFrame b') (type : ViaType)
    (pair : LayerPair) : b'.AllowsVia type pair ↔ b.AllowsVia type pair := by
  cases type <;> simp only [Board.AllowsVia, h.stackup, h.blindBuried, h.microvias]

theorem Board.SameFrame.legalOn {b b' : Board} (h : b.SameFrame b') (d : Draft) :
    d.LegalOn b' ↔ d.LegalOn b := by
  simp only [Draft.LegalOn, h.allowsVia]

/-- A range is the pair that it is made from, or that pair the other way round. -/
theorem LayerRange.pair_ofPair (pair : LayerPair) :
    (LayerRange.ofPair pair).pair =
      if pair.top ≤ pair.bottom then pair else ⟨pair.bottom, pair.top⟩ := by
  unfold LayerRange.ofPair LayerRange.between
  split <;> rfl

theorem Stackup.secondFromBottom_le_bottom {s : Stackup} (h : 2 < s.copperCount) :
    s.secondFromBottom ≤ s.bottom := by
  show s.secondFromBottom.ordinal ≤ s.bottom.ordinal
  have htwo : 2 ≤ s.copperCount := UInt8.le_of_lt h
  have hone : 1 ≤ s.copperCount := UInt8.le_trans (by decide) htwo
  simp only [secondFromBottom, bottom, if_neg (UInt8.not_lt.mpr htwo)]
  rw [UInt8.le_iff_toNat_le, UInt8.toNat_sub_of_le _ _ htwo, UInt8.toNat_sub_of_le _ _ hone]
  exact Nat.sub_le_sub_left (by decide) _

/-- A legal pair is legal as a range of layers. -/
theorem Board.AllowsVia.ofPair {b : Board} {type : ViaType} {pair : LayerPair}
    (h : b.AllowsVia type pair) : b.AllowsVia type (LayerRange.ofPair pair).pair := by
  rw [LayerRange.pair_ofPair]
  split
  · exact h
  · next hreversed =>
      cases type with
      | through =>
          have hpair : pair = b.stackup.outerPair := h
          rw [hpair] at hreversed
          exact absurd UInt8.zero_le hreversed
      | blindBuried =>
          -- what is asked of the two layers does not depend on their order
          obtain ⟨hallowed, hinner, htop, hbottom, hpartial⟩ := h
          refine ⟨hallowed, hinner, hbottom, htop, ?_⟩
          rw [← hpartial]
          simp only [Stackup.isFullSpan, LayerPair.joins]
          rw [Bool.or_comm, Bool.and_comm, Bool.and_comm (pair.bottom == _)]
      | microvia =>
          obtain ⟨_, hinner, rfl | rfl⟩ := h
          · exact absurd UInt8.zero_le hreversed
          · exact absurd (Stackup.secondFromBottom_le_bottom hinner) hreversed

namespace Via

/-- A request that is not refused asks for a type that is allowed, on a board that has room
for it. -/
theorem allowed_of_rejection? {r : ViaRequest} {e : ViaEnvironment} (h : rejection? r e = none) :
    (r.requested = .blindBuried → e.blindBuriedAllowed = true) ∧
      (r.requested = .microvia → e.microviasAllowed = true) ∧
      (r.requested ≠ .through → 2 < e.stackup.copperCount) := by
  unfold rejection? at h
  split at h
  · cases h
  · next hblind =>
      split at h
      · cases h
      · next hmicro =>
          split at h
          · cases h
          · next hinner =>
              refine ⟨fun hr => ?_, fun hr => ?_, fun hr => ?_⟩
              · simpa [hr] using hblind
              · simpa [hr] using hmicro
              · exact UInt8.not_le.mp fun hfew => hinner ⟨hr, hfew⟩

/-- **The via policy lets only legal vias through.** -/
theorem resolve_allows {b : Board} {r : ViaRequest} {v : ResolvedVia}
    (h : resolve r (ViaEnvironment.ofBoard b) = .ok v) :
    b.AllowsVia v.viaType (v.span b.stackup) := by
  unfold resolve at h
  split at h
  · cases h
  · next haccepted =>
      obtain ⟨hblind, hmicro, hinner⟩ := allowed_of_rejection? haccepted
      simp only at h
      split at h
      · cases h
      · next hlegal =>
          cases h
          simp only [Bool.or_eq_true, Bool.not_eq_true', not_or, Bool.not_eq_false] at hlegal
          obtain ⟨⟨_, htop⟩, hbottom⟩ := hlegal
          cases hrequested : r.requested with
          | through =>
              have htype : typeFor r (ViaEnvironment.ofBoard b) = .through := by
                simp [typeFor, hrequested]
              rw [htype]
              rfl
          | blindBuried =>
              by_cases hfull : b.stackup.isFullSpan (pair r (ViaEnvironment.ofBoard b)) = true
              · have htype : typeFor r (ViaEnvironment.ofBoard b) = .through := by
                  rw [typeFor, if_pos ⟨hrequested, hfull⟩]
                rw [htype]
                rfl
              · have htype : typeFor r (ViaEnvironment.ofBoard b) = .blindBuried := by
                  rw [typeFor, if_neg fun hboth => hfull hboth.2, hrequested]
                rw [htype]
                exact ⟨hblind hrequested, hinner (by rw [hrequested]; nofun), htop, hbottom,
                  Bool.eq_false_iff.mpr hfull⟩
          | microvia =>
              have htype : typeFor r (ViaEnvironment.ofBoard b) = .microvia := by
                simp [typeFor, hrequested]
              rw [htype]
              refine ⟨hmicro hrequested, hinner (by rw [hrequested]; nofun), ?_⟩
              show pair r (ViaEnvironment.ofBoard b) = _ ∨ pair r (ViaEnvironment.ofBoard b) = _
              simp only [pair, hrequested]
              split
              · exact .inl rfl
              · exact .inr rfl

end Via

/-- **All vias of a route are legal**: those in its steps, the one at its head, and those
that come back with its steps. -/
structure RouteOp.LegalOn (op : RouteOp) (b : Board) : Prop where
  steps : ∀ s ∈ op.steps, ∀ d ∈ s.items, d.LegalOn b
  head : ∀ p, op.via = some p → b.AllowsVia p.via.viaType p.via.span
  past : ∀ s ∈ op.steps, ∀ p, s.via = some p → b.AllowsVia p.via.viaType p.via.span

theorem RouteOp.LegalOn.staged {op : RouteOp} {b : Board} (h : op.LegalOn b) {d : Draft}
    (hd : d ∈ op.staged) : d.LegalOn b := by
  obtain ⟨s, hs, hd⟩ := List.mem_flatMap.mp hd
  exact h.steps s hs d hd

theorem RouteOp.LegalOn.withdrawVia {op : RouteOp} {b : Board} (h : op.LegalOn b) :
    op.withdrawVia.LegalOn b := by
  have hsteps := op.steps_withdrawVia
  refine ⟨hsteps ▸ h.steps, fun p hp => ?_, hsteps ▸ h.past⟩
  cases op.via_withdrawVia.symm.trans hp

/-- A route begins without any via. -/
theorem RouteOp.legalOn_new (net : NetCode) (start : Point) (id : Option ItemId) (layer : LayerId)
    (sizes : Sizes) (b : Board) : (RouteOp.new net start id layer sizes).LegalOn b := by
  constructor
  · intro s hs
    cases hs
  · intro p hp
    cases hp
  · intro s hs
    cases hs

/-- A track is no via. -/
theorem Draft.legalOn_track (axis : Segment) (width : UInt32) (layer : LayerId) (net : NetCode)
    (b : Board) : (Draft.track axis width layer net).LegalOn b := nofun

/-- A via of an allowed type and span is legal. -/
theorem Draft.legalOn_via {b : Board} {type : ViaType} {pair : LayerPair}
    (h : b.AllowsVia type pair) (p : Point) (diameter drill : UInt32) (net : NetCode) :
    (Draft.via p diameter drill type pair net).LegalOn b := by
  intro position diameter' drill' type' hshape
  cases hshape
  exact h.ofPair

/-- A head has no via but the one that was asked for. -/
theorem Board.routeGeometry_legalOn {b world : Board} {r : RouteRequest} {g : RouteGeometry}
    (h : world.routeGeometry r = .ok g)
    (hvia : ∀ v, r.via = some v → b.AllowsVia v.viaType v.span) : ∀ d ∈ g.items, d.LegalOn b := by
  obtain ⟨points, _, hitems⟩ := routeGeometry_items h
  intro d hd
  rw [hitems] at hd
  rcases List.mem_append.mp hd with htrack | hlast
  · obtain ⟨ends, _, rfl⟩ := List.mem_map.mp htrack
    exact Draft.legalOn_track _ _ _ _ b
  · obtain ⟨v, hv, rfl⟩ := Option.map_eq_some_iff.mp (Option.mem_toList.mp hlast)
    exact Draft.legalOn_via (hvia v hv) _ _ _ _

namespace Tool

/-- What the engine answers to a route with legal vias. -/
theorem legalOn_answer {t : Tool} {op : RouteOp} {b : Board} {p : Point} {id : Option ItemId}
    {g : RouteGeometry} (hlegal : op.LegalOn b)
    (hanswer : t.world.route (t.asks (op.aim p id op.ortho)) = .ok (.ok g)) :
    ∀ d ∈ g.items, d.LegalOn b := by
  obtain ⟨world, _, hg⟩ := World.route_eq_ok hanswer
  refine Board.routeGeometry_legalOn hg fun v hv => ?_
  obtain ⟨pending, hpending, rfl⟩ := Option.map_eq_some_iff.mp hv
  exact hlegal.head pending hpending

/-- A via that the policy lets through hangs legally. -/
theorem legalOn_hangVia {op : RouteOp} {b first : Board} {v : ResolvedVia} (rules : RuleSet)
    (hlegal : op.LegalOn first) (hallows : first.AllowsVia v.viaType (v.span b.stackup)) :
    (op.hangVia b rules v).LegalOn first := by
  refine ⟨hlegal.steps, fun p hp => ?_, hlegal.past⟩
  cases hp
  exact hallows

/-- **What a command makes of the route** has legal vias, if the route had. -/
theorem Alters.legalOn {t : Tool} {op way : RouteOp} {c : Command} {b first : Board}
    (h : t.Alters op c way b) (hframe : first.SameFrame t.board) (hlegal : op.LegalOn first) :
    way.LegalOn first := by
  have allowed {r : ViaRequest} {v : ResolvedVia}
      (hv : Via.resolve r (ViaEnvironment.ofBoard t.board) = .ok v) :
      first.AllowsVia v.viaType (v.span t.board.stackup) :=
    (hframe.allowsVia _ _).mp (Via.resolve_allows hv)
  cases h with
  | paired =>
      unfold RouteOp.usePair
      split
      · exact hlegal
      · exact ⟨hlegal.steps, hlegal.head, hlegal.past⟩
  | renewed =>
      refine ⟨hlegal.steps, fun p hp => ?_, hlegal.past⟩
      obtain ⟨old, hold, rfl⟩ := Option.map_eq_some_iff.mp hp
      exact hlegal.head old hold
  | rerouted hchange =>
      cases hchange with
      | kept => exact hlegal
      | @extended p id g hanswer =>
          refine ⟨fun s hs => ?_, fun p hp => ?_, fun s hs => ?_⟩
          · rcases List.mem_append.mp hs with hs | hs
            · exact hlegal.steps s hs
            · rw [List.mem_singleton.mp hs]
              exact legalOn_answer hlegal hanswer
          · cases hp
          · rcases List.mem_append.mp hs with hs | hs
            · exact hlegal.past s hs
            · rw [List.mem_singleton.mp hs]
              exact hlegal.head
      | undone hundo =>
          obtain ⟨s, hs, rfl⟩ := Option.map_eq_some_iff.mp hundo
          refine ⟨fun s' hs' => hlegal.steps s' (List.dropLast_subset _ hs'),
            hlegal.past s (List.mem_of_getLast? hs),
            fun s' hs' => hlegal.past s' (List.dropLast_subset _ hs')⟩
      | withdrawn => exact hlegal.withdrawVia
      | hung _ hv => exact legalOn_hangVia t.rules hlegal (allowed hv)
      | jumped =>
          have hbare := hlegal.withdrawVia
          exact ⟨hbare.steps, hbare.head, hbare.past⟩
      | hungBelow hv => exact legalOn_hangVia t.rules hlegal.withdrawVia (allowed hv)

end Tool

/-- A via is sound when it is wider than its drill. -/
theorem Shape.fault?_via {position : Point} {diameter drill : UInt32} {type : ViaType} :
    (Shape.via position diameter drill type).fault? = none ↔ 0 < drill ∧ drill < diameter := by
  have hfault : (Shape.via position diameter drill type).fault? =
      if drill = 0 ∨ diameter ≤ drill then some (.drillTooLarge drill diameter) else none := rfl
  rw [hfault, UInt32.pos_iff_ne_zero, ← UInt32.not_le, ← not_or]
  split
  · next hbad => exact ⟨nofun, fun hproper => absurd hbad hproper⟩
  · next hproper => exact ⟨fun _ => hproper, fun _ => rfl⟩

/-- If the item is a via, it is on the first board with the same size, or it is wider than
its drill. -/
def Item.SizedSince (i : Item) (first : Board) : Prop :=
  ∀ position diameter drill type, i.shape = .via position diameter drill type →
    (∃ j ∈ first.items, j.id = i.id ∧ ∃ origin, j.shape = .via origin diameter drill type) ∨
      (0 < drill ∧ drill < diameter)

/-- A legal via, or no via, that comes from the first board or has a proper size. -/
structure Item.Fits (i : Item) (first : Board) : Prop where
  legal : i.draft.LegalOn first
  sized : i.SizedSince first

namespace Item

/-- A track always fits. -/
theorem fits_of_segment {i : Item} {axis : Segment} {width : UInt32}
    (h : i.shape = .segment axis width) (first : Board) : i.Fits first := by
  constructor
  · intro position diameter drill type hshape
    cases h.symm.trans hshape
  · intro position diameter drill type hshape
    cases h.symm.trans hshape

/-- Moving an item does not change whether it fits. -/
theorem Fits.moved {i : Item} {first : Board} {d : Point} {shape : Shape} (h : i.Fits first)
    (hmoves : i.shape.MovesTo d shape) : ({ i with shape := shape } : Item).Fits first := by
  generalize hold : i.shape = old at hmoves
  cases hmoves with
  | segment => exact fits_of_segment rfl first
  | solid => exact ⟨nofun, nofun⟩
  | via =>
      constructor
      · intro position diameter drill type hshape
        cases hshape
        exact h.legal _ _ _ _ hold
      · intro position diameter drill type hshape
        cases hshape
        exact h.sized _ _ _ _ hold

/-- A checked draft fits when it is legal. -/
theorem fits_of_draft {d : Draft} {b first : Board} (hlegal : d.LegalOn first)
    (hchecked : b.draftRejection? d = none) (id : ItemId) : (d.withId id).Fits first := by
  refine ⟨hlegal, fun position diameter drill type hshape => .inr ?_⟩
  have hshape' : d.shape = .via position diameter drill type := hshape
  rw [Board.draftRejection?, Option.or_eq_none_iff, hshape', Shape.fault?_via] at hchecked
  exact hchecked.2

end Item

/-- What a move displays fits when what was grabbed does. -/
theorem Drag.Displays.fits {d : Drag} {w : World} {delta : Point}
    {anchors : List (Point × Point × NetCode)} {i : Item} {first : Board}
    (h : d.Displays w delta anchors i) (hgrabbed : ∀ j ∈ d.grabbed, j.Fits first) :
    i.Fits first := by
  cases h with
  | moved hj hmoved =>
      obtain ⟨shift, shape, hmoves, rfl⟩ := Drag.constrained_eq_ok hmoved
      exact (hgrabbed _ hj).moved hmoves
  | stretched _ _ _ hstretched =>
      obtain ⟨_, _, _, _, rfl⟩ := Board.stretched?_eq_some hstretched
      exact Item.fits_of_segment rfl first

namespace Tool

/-- **The invariant.**  All boards have the frame of the first one and items that fit; the
vias of a route are legal; and what a drag has grabbed and displays fits. -/
structure KeepsVias (first : Board) (t : Tool) : Prop where
  orderly : t.Orderly
  boards : ∀ b ∈ t.boards, first.SameFrame b ∧ ∀ i ∈ b.items, i.Fits first
  route : ∀ op, t.session.route? = some op → op.LegalOn first
  drag : ∀ op, t.session.drag? = some op →
    (∀ i ∈ op.drag.grabbed, i.Fits first) ∧ ∀ i ∈ op.drag.displayed.modified, i.Fits first

/-- **What a command commits fits.** -/
theorem KeepsVias.fits_of_brings {first : Board} {t : Tool} {c : Command} {changes : Changeset}
    {i : Item} (ht : t.KeepsVias first) (hcommits : t.Commits c changes)
    (hi : t.board.Brings changes i) : i.Fits first := by
  cases hcommits with
  | staged hop =>
      rcases hi with hi | ⟨d, hd, hchecked, id, rfl⟩
      · cases hi
      · rcases List.mem_append.mp hd with hd | hd
        · exact Item.fits_of_draft ((ht.route _ hop).staged hd) hchecked id
        · cases hd
  | finished hop hanswer =>
      rcases hi with hi | ⟨d, hd, hchecked, id, rfl⟩
      · cases hi
      · rcases List.mem_append.mp hd with hd | hd
        · exact Item.fits_of_draft ((ht.route _ hop).staged hd) hchecked id
        · exact Item.fits_of_draft (legalOn_answer (ht.route _ hop) hanswer d hd) hchecked id
  | dragged hop =>
      rcases hi with hi | ⟨d, hd, _⟩
      · exact (ht.drag _ hop).2 i (List.mem_filter.mp hi).1
      · cases hd
  | broken hsplit =>
      obtain ⟨whole, _, axis, width, middle, _, _, _, rfl⟩ := Board.splitSegment_segments hsplit
      rcases hi with hi | ⟨d, hd, _, id, rfl⟩
      · rw [List.mem_singleton.mp hi]
        exact Item.fits_of_segment rfl first
      · rw [List.mem_singleton.mp hd]
        exact Item.fits_of_segment rfl first

theorem KeepsVias.ready {first : Board} {t : Tool} (ht : t.KeepsVias first) (k : Turn) :
    (t.ready k).KeepsVias first :=
  ⟨ht.orderly.ready k, ht.boards, ht.route, ht.drag⟩

/-- **Every turn keeps all vias legal.** -/
theorem turn_keepsVias {first : Board} {t t' : Tool} {k : Turn} (ht : t.KeepsVias first)
    (h : t.turn k = .ok t') : t'.KeepsVias first := by
  have horderly := (turn_advances ht.orderly h).orderly
  replace ht := ht.ready k
  obtain ⟨refusal, h⟩ := turn_eq_ok.mp h
  obtain ⟨hframe, hitems⟩ := ht.boards _ (board_mem_boards _)
  have hchanges := execute_changes ht.orderly h
  have hboards : ∀ b ∈ t'.boards, first.SameFrame b ∧ ∀ i ∈ b.items, i.Fits first := by
    refine hchanges.boards.forall_boards ht.boards (fun hsame hframe' => ?_)
      fun changes report hcommits hcommit => ?_
    · exact ⟨hframe.trans hframe', hsame ▸ hitems⟩
    · have htakes := Board.commit_takes hcommit
      refine ⟨hframe.trans htakes.frame, fun i hi => ?_⟩
      rcases htakes.items i hi with hold | hnew
      · exact hitems i hold
      · exact ht.fits_of_brings hcommits hnew
  refine ⟨horderly, hboards, fun op' hop' => ?_, fun op' hop' => ?_⟩
  · cases execute_derives ht.orderly hop' h with
    | began _ _ hopens _ =>
        rw [hopens.fresh]
        exact RouteOp.legalOn_new _ _ _ _ _ first
    | altered hop halters hsame _ =>
        have hlegal := halters.legalOn hframe (ht.route _ hop)
        exact ⟨hsame.steps ▸ hlegal.steps, hsame.via ▸ hlegal.head, hsame.steps ▸ hlegal.past⟩
  · cases hchanges.drags op' hop' with
    | began hgrabbed hfresh =>
        have hfits (i : Item) (hi : i ∈ op'.drag.grabbed) : i.Fits first :=
          (hboards _ (board_mem_boards _)).2 i (hgrabbed i hi)
        exact ⟨hfits, hfresh ▸ hfits⟩
    | kept hop hsame =>
        rw [hsame]
        exact ht.drag _ hop
    | moved hop hmove =>
        obtain ⟨hgrabbed, hdisplayed⟩ := Drag.moveTo_eq_ok hmove
        obtain ⟨hfits, hold⟩ := ht.drag _ hop
        refine ⟨hgrabbed ▸ hfits, ?_⟩
        rcases hdisplayed with hsame | ⟨delta, anchors, hall⟩
        · exact hsame ▸ hold
        · exact fun i hi => (hall i hi).fits hfits

/-- **All vias are legal**: those on the board, those in the steps of a running route and
the one at its head.  The frame is that of the first board, and vias that were not there
with the same size are wider than their drill. -/
structure ViasLegal (first : Board) (t : Tool) : Prop where
  frame : first.SameFrame t.board
  board : ∀ i ∈ t.board.items, i.draft.LegalOn t.board
  steps : ∀ op, t.session.route? = some op → ∀ s ∈ op.steps, ∀ d ∈ s.items, d.LegalOn t.board
  head : ∀ op p, t.session.route? = some op → op.via = some p →
    t.board.AllowsVia p.via.viaType p.via.span
  sized : ∀ i ∈ t.board.items, i.SizedSince first

/-- Under the invariant all vias are legal. -/
theorem KeepsVias.viasLegal {first : Board} {t : Tool} (ht : t.KeepsVias first) :
    t.ViasLegal first := by
  obtain ⟨hframe, hitems⟩ := ht.boards _ t.board_mem_boards
  refine ⟨hframe, fun i hi => ?_, fun op hop s hs d hd => ?_, fun op p hop hp => ?_,
    fun i hi => (hitems i hi).sized⟩
  · exact (hframe.legalOn _).mpr (hitems i hi).legal
  · exact (hframe.legalOn _).mpr ((ht.route op hop).steps s hs d hd)
  · exact (hframe.allowsVia _ _).mpr ((ht.route op hop).head p hp)

/-- **Vias stay legal.**  On a board whose vias are all legal they stay so throughout every
service, and so do those of the routes on their way to the board.  Every via that was added
is wider than its drill. -/
theorem serve_viasLegal (board : Board) (world : World) (options : Options) (rules : RuleSet)
    (search : TreeSearch) (confirms : Bool) (os : List Occasion)
    (hlegal : ∀ i ∈ board.items, i.draft.LegalOn board) :
    (new board world options rules search confirms).Serving (Always (ViasLegal board)) os := by
  have hstart : (new board world options rules search confirms).KeepsVias board := by
    refine ⟨orderly_new board world options rules search confirms, fun b hb => ?_, fun op hop => ?_,
      fun op hop => ?_⟩
    · rw [List.mem_singleton.mp hb]
      refine ⟨Board.SameFrame.refl board, fun i hi => ⟨hlegal i hi, ?_⟩⟩
      exact fun position diameter drill type hshape => .inl ⟨i, hi, rfl, position, hshape⟩
    · cases hop
    · cases hop
  have hprompt (t : Tool) (o : Occasion) (ht : t.KeepsVias board) :
      (t.prompted o).KeepsVias board :=
    ⟨ht.orderly.prompted o, ht.boards, ht.route, ht.drag⟩
  exact serving_always_of_invariant hprompt (fun _ _ _ => turn_keepsVias)
    (fun _ ht => ht.viasLegal) hstart os

/-- A board of four layers with a blind via. -/
def blindViaBoard : Board :=
  { Board.empty (Stackup.ofCount 4) { Design.standard with blindBuriedAllowed := true } with
    items := [⟨1, .via ⟨0, 0⟩ 600000 300000 .blindBuried, 1, ⟨⟨0⟩, ⟨2⟩⟩, false, none⟩]
    nextId := 2 }

/-- The blind via is dragged to another place. -/
def dragVia : List Occasion :=
  [⟨.dragSelection [1] ⟨0, 0⟩ true, true, false⟩, ⟨.motion ⟨1000000, 0⟩ false, true, false⟩,
    ⟨.click ⟨1000000, 0⟩ false false, true, false⟩]

/-- It is legal there as well. -/
theorem serve_viasLegal_dragged :
    (∀ i ∈ blindViaBoard.items, i.draft.LegalOn blindViaBoard) ∧
      (launch blindViaBoard Options.standard [] true).Serving
        (Always (ViasLegal blindViaBoard)) dragVia ∧
      ∃ t, (launch blindViaBoard Options.standard [] true).serve dragVia = .ok t ∧
        t.ViasLegal blindViaBoard ∧
        t.board.items =
          [⟨1, .via ⟨1000000, 0⟩ 600000 300000 .blindBuried, 1, ⟨⟨0⟩, ⟨2⟩⟩, false, none⟩] := by
  have hlegal : ∀ i ∈ blindViaBoard.items, i.draft.LegalOn blindViaBoard := by
    intro i hi
    rw [List.mem_singleton.mp hi]
    intro position diameter drill type hshape
    cases hshape
    decide
  have halways : (launch blindViaBoard Options.standard [] true).Serving
      (Always (ViasLegal blindViaBoard)) dragVia :=
    serve_viasLegal blindViaBoard (some blindViaBoard) Options.standard _ _ true dragVia hlegal
  obtain ⟨t, hserve, hitems⟩ :
      ∃ t, (launch blindViaBoard Options.standard [] true).serve dragVia = .ok t ∧
        t.board.items =
          [⟨1, .via ⟨1000000, 0⟩ 600000 300000 .blindBuried, 1, ⟨⟨0⟩, ⟨2⟩⟩, false, none⟩] :=
    ⟨_, by rfl, by rfl⟩
  exact ⟨hlegal, halways, t, hserve, halways.last hserve, hitems⟩

end Tool

end CopperRoute
