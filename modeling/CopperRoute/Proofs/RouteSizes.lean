import CopperRoute.Proofs.Intents
import CopperRoute.Proofs.StartCopper

/-!
# The sizes of a running route

The sizes in force for a route live in one place, but copies of them are kept: a via at
the head has a size of its own and remembers the sizes from before it, and every fixed
step keeps the via it ended with.  A size command settles the sizes in force and those of
the via at the head, not those in the steps.  So a step that is taken back can bring old
values back.

Two properties depend on that.

* A via at the head **agrees** with the sizes in force (`Tool.ViaAgrees`).  Exactly
  taking back a step whose via has another size or type breaks this
  (`serve_viaAgrees_iff`).
* The sizes of tracks and of differential pairs are the ones that the **design** gives
  for the net of the route (`Tool.FollowsDesign`).  Exactly two commands can break this
  (`serve_followsDesign_iff`): taking back a via that remembers other sizes, and going
  back to net classes while the route leaves from copper of another net's class.

Both hold as long as nothing changes the sizes in question while a fixed step ends with a
via (`Tool.ChangesBehindVia`).
-/

namespace CopperRoute

/-- What a via is: its type, its diameter and its drill. -/
structure ViaSize where
  viaType : ViaType
  diameter : UInt32
  drill : UInt32
  deriving DecidableEq, Repr, Inhabited

/-- The dimensions of tracks and of differential pairs, and where they came from. -/
structure TrackSizes where
  width : UInt32
  widthSource : SizeSource
  pairWidth : UInt32
  pairGap : UInt32
  pairViaGap : UInt32
  pairSource : SizeSource
  deriving DecidableEq, Repr, Inhabited

def HeadVia.size (v : HeadVia) : ViaSize := ⟨v.viaType, v.diameter, v.drill⟩

/-- What the next via of the route will be. -/
def Sizes.nextVia (s : Sizes) : ViaSize := ⟨s.viaType, s.viaDiameter, s.viaDrill⟩

def Sizes.tracks (s : Sizes) : TrackSizes :=
  ⟨s.trackWidth, s.trackWidthSource, s.diffPairWidth, s.diffPairGap, s.diffPairViaGap,
    s.diffPairSource⟩

def NetClass.tracks (c : NetClass) : TrackSizes :=
  ⟨c.trackWidth, .netClass, c.diffPairWidth, c.diffPairGap, c.diffPairViaGap, .netClass⟩

def Design.customTracks (d : Design) : TrackSizes :=
  ⟨d.customTrackWidth, .custom, d.customDiffPairWidth, d.customDiffPairGap,
    d.customDiffPairViaGap, .custom⟩

/-- **The one source** for the tracks of a net: what was set by hand while that is in
force, the class of the net otherwise. -/
def Design.tracksFor (d : Design) (net : NetCode) : TrackSizes :=
  if d.useCustomSizes then d.customTracks else (d.netClassFor net).tracks

/-- Sizes that are set by hand hold for all nets. -/
theorem Design.tracksFor_custom {d : Design} (h : d.useCustomSizes = true) (net net' : NetCode) :
    d.tracksFor net = d.tracksFor net' := by
  simp only [tracksFor, h, if_true]

/-- All size commands but one put sizes set by hand in force. -/
theorem Command.Redesigns.custom {c : Command} {change : Design → Design}
    (h : c.Redesigns change) : c = .useNetClassSizes ∨ ∀ d, (change d).useCustomSizes = true := by
  cases h with
  | netClasses => exact .inl rfl
  | trackWidth | viaSize | diffPair => exact .inr fun _ => rfl

namespace Sizes

/-- Another pair of layers leaves the sizes of tracks alone. -/
@[simp] theorem tracks_addLayerPair (s : Sizes) (pair : LayerPair) :
    (s.addLayerPair pair).tracks = s.tracks := by
  unfold addLayerPair
  split <;> rfl

/-- Another pair of layers leaves the size of the next via alone. -/
@[simp] theorem nextVia_addLayerPair (s : Sizes) (pair : LayerPair) :
    (s.addLayerPair pair).nextVia = s.nextVia := by
  unfold addLayerPair
  split <;> rfl

/-- Any number of pairs leave the sizes of tracks alone. -/
theorem tracks_addLayerPairs (pairs : List LayerPair) (s : Sizes) :
    (pairs.foldl addLayerPair s).tracks = s.tracks := by
  induction pairs generalizing s with
  | nil => rfl
  | cons pair pairs ih => rw [List.foldl_cons, ih, tracks_addLayerPair]

/-- Any number of pairs leave the size of the next via alone. -/
theorem nextVia_addLayerPairs (pairs : List LayerPair) (s : Sizes) :
    (pairs.foldl addLayerPair s).nextVia = s.nextVia := by
  induction pairs generalizing s with
  | nil => rfl
  | cons pair pairs ih => rw [List.foldl_cons, ih, nextVia_addLayerPair]

end Sizes

namespace Sizing

/-- Settling diameter and drill leaves the tracks alone. -/
theorem tracks_resolveVia (b : Board) (r : SizingRequest) (rules : RuleSet) (s : Sizes) :
    (resolveVia b r rules s).tracks = s.tracks := by
  unfold resolveVia
  simp only
  split <;> rfl

/-- The type of the next via is the one that was asked for. -/
theorem viaType_resolveVia (b : Board) (r : SizingRequest) (rules : RuleSet) (s : Sizes) :
    (resolveVia b r rules s).viaType = r.viaType := by
  unfold resolveVia
  simp only
  split <;> rfl

/-- The sizes of tracks come from one source, by hand or from the class of the net. -/
theorem tracks_importTrack (b : Board) (key : SizingKey) (custom : Bool) (s : Sizes) :
    (importTrack b key custom s).tracks =
      if custom then b.design.customTracks else (b.design.netClassFor key.netCode).tracks := by
  cases custom <;> rfl

/-- **The design settles the tracks**, for the net of the key. -/
theorem tracks_resolve_forBoard (b : Board) (key : SizingKey) (viaType : ViaType)
    (pair : LayerPair) (layer : LayerId) (seed : Sizes) (rules : RuleSet) :
    (resolve b (.forBoard b key viaType pair layer) seed rules).tracks =
      b.design.tracksFor key.netCode :=
  tracks_importTrack b key _ _

/-- Renewed sizes of tracks come from the one source. -/
theorem tracks_renew (b : Board) (rules : RuleSet) (key : SizingKey) (layer : LayerId)
    (s : Sizes) : (renew b rules key layer s).tracks = b.design.tracksFor key.netCode := by
  rw [renew, Sizes.tracks_addLayerPairs]
  exact tracks_resolve_forBoard b key s.viaType _ layer s rules

/-- The sizes of tracks do not touch the type of the next via. -/
theorem viaType_importTrack (b : Board) (key : SizingKey) (custom : Bool) (s : Sizes) :
    (importTrack b key custom s).viaType = s.viaType := by
  cases custom <;> rfl

/-- The layer pairs of the seed are not taken over. -/
theorem layerPairs_resolve (b : Board) (rules : RuleSet) (r : SizingRequest) (seed : Sizes) :
    (resolve b r seed rules).layerPairs = [] := by
  have hvia : (resolveVia b r rules seed.clearLayerPairs).layerPairs = [] := by
    unfold resolveVia
    simp only
    split <;> rfl
  unfold resolve importTrack
  simp only
  split <;> exact hvia

/-- The type of the next via stays when sizes are settled anew. -/
theorem viaType_renew (b : Board) (rules : RuleSet) (key : SizingKey) (layer : LayerId)
    (s : Sizes) : (renew b rules key layer s).viaType = s.viaType := by
  have htype := congrArg ViaSize.viaType (Sizes.nextVia_addLayerPairs s.layerPairs
    (resolve b (.forBoard b key s.viaType (s.layerPairs.head?.getD b.defaultPair) layer) s rules))
  refine htype.trans ?_
  show (importTrack b key b.design.useCustomSizes _).viaType = s.viaType
  rw [viaType_importTrack, viaType_resolveVia]
  rfl

end Sizing

/-- A via that is accepted sets the type of the next one. -/
theorem ResolvedVia.viaType_applyTo (v : ResolvedVia) (s : Sizes) :
    (v.applyTo s).viaType = v.viaType := by
  show (v.applyTo s).nextVia.viaType = v.viaType
  rw [applyTo, Sizes.nextVia_addLayerPair]
  rfl

namespace RouteOp

/-- A choice of layers for vias leaves the sizes of tracks alone. -/
theorem tracks_usePair (op : RouteOp) (pair : LayerPair) :
    (op.usePair pair).sizes.tracks = op.sizes.tracks := by
  unfold usePair
  split
  · rfl
  · exact op.sizes.clearLayerPairs.tracks_addLayerPair pair

/-- Choosing layers for the next via does not change what it is. -/
theorem nextVia_usePair (op : RouteOp) (pair : LayerPair) :
    (op.usePair pair).sizes.nextVia = op.sizes.nextVia := by
  unfold usePair
  split
  · rfl
  · exact op.sizes.clearLayerPairs.nextVia_addLayerPair pair

/-- A choice of layers for vias leaves the via at the head alone. -/
theorem via_usePair (op : RouteOp) (pair : LayerPair) : (op.usePair pair).via = op.via := by
  unfold usePair
  split <;> rfl

/-- Hanging a via on leaves the sizes of tracks alone. -/
theorem tracks_hangVia (op : RouteOp) (b : Board) (rules : RuleSet) (v : ResolvedVia) :
    (op.hangVia b rules v).sizes.tracks = op.sizes.tracks := by
  simp only [hangVia, ResolvedVia.applyTo, Sizes.tracks_addLayerPair]
  exact Sizing.tracks_resolveVia b _ rules op.sizes

/-- A route whose sizes are renewed has its tracks from the one source. -/
theorem tracks_renewSizes (op : RouteOp) (b : Board) (rules : RuleSet) :
    (op.renewSizes b rules).sizes.tracks = b.design.tracksFor (op.sizingKey b).netCode :=
  Sizing.tracks_renew b rules _ _ _

/-- A via that is taken back leaves the sizes that it remembers. -/
theorem sizes_withdrawVia {op : RouteOp} {p : PendingVia} (h : op.via = some p) :
    op.withdrawVia.sizes = p.sizesBefore := by
  simp only [withdrawVia, h]

/-- A step taken back gives its via back, and no sizes. -/
theorem undoStep_eq_some {op way : RouteOp} (h : op.undoStep = some way) :
    ∃ s, op.steps.getLast? = some s ∧ way.via = s.via ∧ way.sizes = op.sizes ∧
      way.net = op.net ∧ way.steps = op.steps.dropLast := by
  obtain ⟨s, hs, rfl⟩ := Option.map_eq_some_iff.mp h
  exact ⟨s, hs, rfl, rfl, rfl, rfl⟩

end RouteOp

namespace Tool

/-- What a measure of the design settings, the net and the sizes gives for a route. -/
def measured {α : Type} (f : Design → NetCode → Sizes → α) (t : Tool) (op : RouteOp) : α :=
  f t.board.design op.net op.sizes

/-- **A change behind a via.**  The measure of the running route changes, while a step
that was fixed with a via stays. -/
def ChangesBehindVia {α : Type} (f : Design → NetCode → Sizes → α) (t : Tool) (c : Command) :
    Prop :=
  ∃ t' refusal op op' s, t.execute c = .ok (t', refusal) ∧ t.session.route? = some op ∧
    t'.session.route? = some op' ∧ s ∈ op.steps ∧ s ∈ op'.steps ∧ s.via ≠ none ∧
      t'.measured f op' ≠ t.measured f op

/-- Nothing changes behind a via when no step has one. -/
theorem not_changesBehindVia {α : Type} {f : Design → NetCode → Sizes → α} {t : Tool} {c : Command}
    (h : ∀ op s, t.session.route? = some op → s ∈ op.steps → s.via = none) :
    ¬ t.ChangesBehindVia f c := by
  rintro ⟨_, _, op, _, s, _, hop, _, hs, _, hvia, _⟩
  exact hvia (h op s hop hs)

/-- The vias at the head and in the steps of the running route all satisfy `Q`, which may
depend on the measure of the route. -/
structure ViasSatisfy {α : Type} (f : Design → NetCode → Sizes → α) (Q : α → PendingVia → Prop)
    (t : Tool) : Prop where
  head : ∀ op p, t.session.route? = some op → op.via = some p → Q (t.measured f op) p
  steps : ∀ op s p, t.session.route? = some op → s ∈ op.steps → s.via = some p →
    Q (t.measured f op) p

/-- The steps behind a change are from before, but for one that keeps the via of the
head. -/
theorem Alters.mem_steps {t : Tool} {op way : RouteOp} {c : Command} {b : Board} {s : RouteStep}
    (h : t.Alters op c way b) (hs : s ∈ way.steps) :
    s ∈ op.steps ∨
      (s.via = op.via ∧ way.sizes = op.sizes ∧ way.net = op.net ∧ b = t.board) := by
  cases h with
  | paired =>
      rw [(op.sameWay_usePair _).steps] at hs
      exact .inl hs
  | renewed =>
      rw [(op.sameWay_renewSizes _ _).steps] at hs
      exact .inl hs
  | rerouted hchange =>
      cases hchange with
      | kept => exact .inl hs
      | extended =>
          rcases List.mem_append.mp hs with hs | hs
          · exact .inl hs
          · rw [List.mem_singleton.mp hs]
            exact .inr ⟨rfl, rfl, rfl, rfl⟩
      | undone hundo =>
          obtain ⟨_, _, _, _, _, hsteps⟩ := RouteOp.undoStep_eq_some hundo
          rw [hsteps] at hs
          exact .inl (List.dropLast_subset _ hs)
      | withdrawn => exact .inl (op.steps_withdrawVia ▸ hs)
      | hung => exact .inl hs
      | jumped => exact .inl (op.steps_withdrawVia ▸ hs)
      | hungBelow => exact .inl (op.steps_withdrawVia ▸ hs)

/-- **What steps remember stays true** unless it changes behind a via. -/
theorem turn_stepVias {α : Type} {f : Design → NetCode → Sizes → α} {Q : α → PendingVia → Prop}
    {t t' : Tool} {k : Turn} (ht : t.Orderly) (hvias : t.ViasSatisfy f Q)
    (hgood : ¬ (t.ready k).ChangesBehindVia f k.command) (h : t.turn k = .ok t') (op' : RouteOp)
    (s : RouteStep) (p : PendingVia) (hop' : t'.session.route? = some op') (hs : s ∈ op'.steps)
    (hp : s.via = some p) : Q (t'.measured f op') p := by
  obtain ⟨refusal, h⟩ := turn_eq_ok.mp h
  cases execute_derives (ht.ready k) hop' h with
  | began _ _ hopens _ =>
      rw [hopens.fresh] at hs
      cases hs
  | @altered op way b hop halters hsame hboard =>
      have hstep : s ∈ way.steps := hsame.steps ▸ hs
      rcases halters.mem_steps hstep with hold | ⟨hvia, hsizes, hnet, hb⟩
      · have hunchanged : t'.measured f op' = t.measured f op := by
          by_contra hchanged
          exact hgood ⟨t', refusal, op, op', s, h, hop, hop', hold, hs, hp ▸ nofun, hchanged⟩
        rw [hunchanged]
        exact hvias.steps op s p hop hold hp
      · have hsame' : t'.measured f op' = t.measured f op := by
          rw [measured, measured, hboard, hb, hsame.net, hsame.sizes, hsizes, hnet]
          rfl
        rw [hsame']
        exact hvias.head op p hop (hvia ▸ hp)

/-- The via at the head is what the next via of the route is to be. -/
def ViaAgrees (t : Tool) : Prop :=
  ∀ op p, t.session.route? = some op → op.via = some p → p.via.size = op.sizes.nextVia

/-- **Bringing back another via.**  The step that is taken back ends with a via of another
type or size than the next via of the route is to be. -/
inductive RestoresOther (t : Tool) : Command → Prop
  | undo {op : RouteOp} {s : RouteStep} {p : PendingVia} (hop : t.session.route? = some op)
      (hlast : op.steps.getLast? = some s) (hvia : s.via = some p)
      (hother : p.via.size ≠ op.sizes.nextVia) : RestoresOther t .undoLastSegment

/-- A new via is what the sizes settled for it say. -/
theorem size_hangVia {op : RouteOp} {b : Board} {rules : RuleSet} {v : ResolvedVia}
    {p : PendingVia} (hp : (op.hangVia b rules v).via = some p) :
    p.via.size = (op.hangVia b rules v).sizes.nextVia := by
  cases hp
  have htype : (op.hangVia b rules v).sizes.viaType = v.viaType := v.viaType_applyTo _
  show (⟨v.viaType, _, _⟩ : ViaSize) = ⟨(op.hangVia b rules v).sizes.viaType, _, _⟩
  rw [htype]
  rfl

/-- Settling sizes anew gives the via at the head the new diameter and drill; its type
stays, as that of the next via does. -/
theorem size_renewSizes {op : RouteOp} {b : Board} {rules : RuleSet} {p : PendingVia}
    (hagrees : ∀ p, op.via = some p → p.via.size = op.sizes.nextVia)
    (hp : (op.renewSizes b rules).via = some p) :
    p.via.size = (op.renewSizes b rules).sizes.nextVia := by
  obtain ⟨old, hold, rfl⟩ := Option.map_eq_some_iff.mp hp
  have htype : (op.renewSizes b rules).sizes.viaType = op.sizes.viaType :=
    Sizing.viaType_renew b rules _ _ _
  have hsame : old.via.viaType = op.sizes.viaType := congrArg ViaSize.viaType (hagrees old hold)
  show (⟨old.via.viaType, _, _⟩ : ViaSize) = ⟨(op.renewSizes b rules).sizes.viaType, _, _⟩
  rw [htype, hsame]
  rfl

/-- What the route is made of keeps the via at the head in agreement, unless a step with
another via is taken back. -/
theorem Alters.viaAgrees {t : Tool} {op way : RouteOp} {c : Command} {b : Board} {p : PendingVia}
    (h : t.Alters op c way b) (hop : t.session.route? = some op)
    (hagrees : ∀ p, op.via = some p → p.via.size = op.sizes.nextVia)
    (hgood : ¬ t.RestoresOther c) (hp : way.via = some p) : p.via.size = way.sizes.nextVia := by
  cases h with
  | paired =>
      rw [op.nextVia_usePair]
      exact hagrees p (op.via_usePair _ ▸ hp)
  | renewed => exact size_renewSizes hagrees hp
  | rerouted hchange =>
      cases hchange with
      | kept => exact hagrees p hp
      | extended => cases hp
      | undone hundo =>
          obtain ⟨s, hlast, hvia, hsizes, _, _⟩ := RouteOp.undoStep_eq_some hundo
          rw [hsizes]
          by_contra hother
          exact hgood (.undo hop hlast (hvia ▸ hp) hother)
      | withdrawn => cases op.via_withdrawVia.symm.trans hp
      | hung => exact size_hangVia hp
      | jumped => cases op.via_withdrawVia.symm.trans hp
      | hungBelow => exact size_hangVia hp

/-- **A turn keeps the via at the head in agreement** exactly when it does not bring back
another one. -/
theorem turn_viaAgrees_iff {t t' : Tool} {k : Turn} (ht : t.Orderly) (hagrees : t.ViaAgrees)
    (h : t.turn k = .ok t') : t'.ViaAgrees ↔ ¬ (t.ready k).RestoresOther k.command := by
  obtain ⟨refusal, h⟩ := turn_eq_ok.mp h
  constructor
  · intro hkept hbad
    generalize k.command = c at h hbad
    cases hbad with
    | @undo op s p hop hlast hvia hother =>
        have hundo : ∃ way, op.undoStep = some way := by
          rw [RouteOp.undoStep, hlast]
          exact ⟨_, rfl⟩
        obtain ⟨way, hundo⟩ := hundo
        obtain ⟨s', hlast', hvia', hsizes, _, _⟩ := RouteOp.undoStep_eq_some hundo
        cases hlast.symm.trans hlast'
        obtain ⟨op', hop', hsame, _⟩ := undoLastSegment_restores hop hundo (Checked.of_tagged h)
        have hrestored : op'.via = some p := by rw [hsame.via, hvia', hvia]
        have hsize := hkept op' p hop' hrestored
        rw [hsame.sizes, hsizes] at hsize
        exact hother hsize
  · intro hgood op' p hop' hp
    cases execute_derives (ht.ready k) hop' h with
    | began _ _ hopens _ =>
        rw [hopens.fresh] at hp
        cases hp
    | altered hop halters hsame _ =>
        rw [hsame.sizes]
        exact halters.viaAgrees hop (fun p => hagrees _ p hop) hgood (hsame.via ▸ hp)

/-- The measure that the via at the head has to agree with. -/
def nextVia (_ : Design) (_ : NetCode) (s : Sizes) : ViaSize := s.nextVia

/-- As long as the next via does not change behind a via, the vias of all steps agree with
it as well, so that taking them back does no harm. -/
theorem turn_viasAgree {t t' : Tool} {k : Turn}
    (ht : t.Orderly ∧ t.ViasSatisfy nextVia fun size p => p.via.size = size)
    (hgood : ¬ (t.ready k).ChangesBehindVia nextVia k.command) (h : t.turn k = .ok t') :
    t'.Orderly ∧ t'.ViasSatisfy nextVia fun size p => p.via.size = size := by
  obtain ⟨horderly, hvias⟩ := ht
  have hsteps := turn_stepVias horderly hvias hgood h
  have hkept : t'.ViaAgrees := by
    refine (turn_viaAgrees_iff horderly hvias.head h).mpr fun hbad => ?_
    generalize k.command = c at hbad
    cases hbad with
    | undo hop hlast hvia hother =>
        exact hother (hvias.steps _ _ _ hop (List.mem_of_getLast? hlast) hvia)
  exact ⟨(turn_advances horderly h).orderly, hkept, hsteps⟩

/-- **The via that would be placed agrees with the sizes of the route** throughout a
service exactly when no step is taken back whose via is another one; and so whenever the
next via never changes while a fixed step ends with a via. -/
theorem serve_viaAgrees_iff (board : Board) (world : World) (options : Options) (rules : RuleSet)
    (search : TreeSearch) (confirms : Bool) (os : List Occasion) :
    ((new board world options rules search confirms).Serving (Always ViaAgrees) os ↔
      (new board world options rules search confirms).Serving (Avoids RestoresOther) os) ∧
      ((new board world options rules search confirms).Serving
          (Avoids (ChangesBehindVia nextVia)) os →
        (new board world options rules search confirms).Serving (Always ViaAgrees) os) := by
  have horderly := orderly_new board world options rules search confirms
  have hnone (op : RouteOp) :
      (new board world options rules search confirms).session.route? ≠ some op := nofun
  constructor
  · refine serving_always_iff_avoids (J := fun t => t.Orderly ∧ t.ViaAgrees)
      (fun _ o ht => ⟨ht.1.prompted o, ht.2⟩) (fun t k t' ht hgood h => ?_) (fun _ ht => ht.2)
      (fun t k t' ht h hkept => ?_) ⟨horderly, fun op _ hop => absurd hop (hnone op)⟩
    · exact ⟨(turn_advances ht.1 h).orderly, (turn_viaAgrees_iff ht.1 ht.2 h).mpr hgood⟩
    · exact (turn_viaAgrees_iff ht.1 ht.2 h).mp hkept
  · refine serving_always_of_avoids
      (I := fun t => t.Orderly ∧ t.ViasSatisfy nextVia fun size p => p.via.size = size)
      (fun t o h => ⟨h.1.prompted o, h.2.head, h.2.steps⟩) (fun _ _ _ => turn_viasAgree)
      (fun _ h => h.2.head) ⟨horderly, fun op _ hop => absurd hop (hnone op),
        fun op _ _ hop => absurd hop (hnone op)⟩

/-- A route in the open whose first step ends with a via. -/
def viaStep : List Occasion :=
  [⟨.click ⟨0, 0⟩ false false, true, false⟩, ⟨.placeVia .through none, true, false⟩,
    ⟨.click ⟨1000000, 0⟩ false false, true, false⟩]

/-- The key that takes the last step back. -/
def backspace : Occasion := ⟨.keyPress "Backspace", true, false⟩

/-- Taking the step back right away does no harm. -/
theorem serve_viaAgrees_stepBack :
    (launch Board.standard Options.standard [] true).Serving
        (Avoids (ChangesBehindVia nextVia)) (viaStep ++ [backspace]) ∧
      (launch Board.standard Options.standard [] true).Serving
        (Always ViaAgrees) (viaStep ++ [backspace]) ∧
      ∃ t op p, (launch Board.standard Options.standard [] true).serve
          (viaStep ++ [backspace]) = .ok t ∧ t.session.route? = some op ∧ op.via = some p ∧
        p.via.size = op.sizes.nextVia := by
  have havoids : (launch Board.standard Options.standard [] true).Serving
      (Avoids (ChangesBehindVia nextVia)) (viaStep ++ [backspace]) := by
    refine serving_avoids_cons (c := .startRouting ⟨0, 0⟩ none) (by rfl)
      (not_changesBehindVia fun op s hop hs => ?_) ?_
    · cases hop
    refine serving_avoids_cons (c := .placeVia .through none) (by rfl)
      (not_changesBehindVia fun op s hop hs => ?_) ?_
    · cases hop
      cases hs
    refine serving_avoids_cons (c := .fixRoute ⟨1000000, 0⟩ none false) (by rfl)
      (not_changesBehindVia fun op s hop hs => ?_) ?_
    · cases hop
      cases hs
    refine serving_avoids_cons (c := .undoLastSegment) (by rfl) ?_ trivial
    -- the only step has a via, but it does not stay
    rintro ⟨_, _, _, _, _, hdone, _, hop', _, hkept, _⟩
    cases hdone
    cases hop'
    cases hkept
  have halways := (serve_viaAgrees_iff Board.standard (some Board.standard) Options.standard _ _
    true (viaStep ++ [backspace])).2 havoids
  obtain ⟨t, op, p, hserve, hop, hp⟩ :
      ∃ t op p, (launch Board.standard Options.standard [] true).serve
          (viaStep ++ [backspace]) = .ok t ∧ t.session.route? = some op ∧ op.via = some p :=
    ⟨_, _, _, by rfl, by rfl, by rfl⟩
  exact ⟨havoids, halways, t, op, p, hserve, hop, hp, halways.last hserve op p hop hp⟩

/-- After other via sizes were set, the step brings a via of the old size back. -/
theorem serve_not_viaAgrees :
    ¬ (launch Board.standard Options.standard [] true).Serving (Always ViaAgrees)
      (viaStep ++ [⟨.setCustomViaSize 900000 450000, true, false⟩, backspace]) := by
  intro halways
  obtain ⟨t, op, p, hserve, hop, hp, hold, hnew⟩ :
      ∃ t op p, (launch Board.standard Options.standard [] true).serve
          (viaStep ++ [⟨.setCustomViaSize 900000 450000, true, false⟩, backspace]) = .ok t ∧
        t.session.route? = some op ∧ op.via = some p ∧
        p.via.size = ⟨.through, 800000, 400000⟩ ∧
        op.sizes.nextVia = ⟨.through, 900000, 450000⟩ :=
    ⟨_, _, _, by rfl, by rfl, by rfl, by rfl, by rfl⟩
  have hagrees := halways.last hserve op p hop hp
  rw [hold, hnew] at hagrees
  cases hagrees

/-- The measure that the tracks of a route have to follow. -/
def trackSource (d : Design) (net : NetCode) (_ : Sizes) : TrackSizes := d.tracksFor net

/-- The tracks of the running route have the sizes that the design settings give for its
net. -/
def FollowsDesign (t : Tool) : Prop :=
  ∀ op, t.session.route? = some op → op.sizes.tracks = t.board.design.tracksFor op.net

/-- **Mis-sizing.**  A command gives the running route tracks of other sizes than the
design settings say. -/
inductive Missizes (t : Tool) : Command → Prop
  /-- The net classes come in force, but that of the copper that the head leaves from is
  not that of the net. -/
  | classes {op : RouteOp} (hop : t.session.route? = some op)
      (hother : (t.board.design.netClassFor (op.sizingKey t.board).netCode).tracks ≠
        (t.board.design.netClassFor op.net).tracks) : Missizes t .useNetClassSizes
  /-- The via that is taken back remembers other sizes. -/
  | stale {c : Command} {op : RouteOp} {p : PendingVia} (htakes : TakesViaBack c)
      (hop : t.session.route? = some op) (hvia : op.via = some p)
      (hstale : p.sizesBefore.tracks ≠ t.board.design.tracksFor op.net) : Missizes t c

/-- Sizes set by hand hold for every net, whatever copper the head leaves from. -/
theorem tracks_renewSizes_custom {op : RouteOp} {b : Board} {rules : RuleSet}
    (hcustom : b.design.useCustomSizes = true) :
    (op.renewSizes b rules).sizes.tracks = b.design.tracksFor op.net := by
  rw [op.tracks_renewSizes, Design.tracksFor_custom hcustom]

/-- Net class sizes come out as the class of the copper that the head leaves from says. -/
theorem tracks_renewSizes_classes (op : RouteOp) (b : Board) (rules : RuleSet) :
    (op.renewSizes (b.redesign fun d => { d with useCustomSizes := false }) rules).sizes.tracks =
      (b.design.netClassFor (op.sizingKey b).netCode).tracks :=
  op.tracks_renewSizes _ rules

/-- What the route is made of follows the design settings, unless the command mis-sizes
it. -/
theorem Alters.followsDesign {t : Tool} {op way : RouteOp} {c : Command} {b : Board}
    (h : t.Alters op c way b) (hop : t.session.route? = some op)
    (hfollows : op.sizes.tracks = t.board.design.tracksFor op.net) (hgood : ¬ t.Missizes c) :
    way.sizes.tracks = b.design.tracksFor way.net := by
  have hwithdrawn (htakes : TakesViaBack c) :
      op.withdrawVia.sizes.tracks = t.board.design.tracksFor op.withdrawVia.net := by
    rw [net_withdrawVia]
    cases hvia : op.via with
    | none => rw [RouteOp.withdrawVia_of_none hvia, hfollows]
    | some p =>
        rw [RouteOp.sizes_withdrawVia hvia]
        by_contra hstale
        exact hgood (.stale htakes hop hvia hstale)
  cases h with
  | paired =>
      rw [op.tracks_usePair, (op.sameWay_usePair _).net]
      exact hfollows
  | @renewed _ change hredesigns =>
      rcases hredesigns.custom with hclasses | hcustom
      · subst hclasses
        cases hredesigns
        rw [tracks_renewSizes_classes]
        by_contra hother
        exact hgood (.classes hop hother)
      · exact tracks_renewSizes_custom (hcustom _)
  | rerouted hchange =>
      cases hchange with
      | kept => exact hfollows
      | extended => exact hfollows
      | undone hundo =>
          obtain ⟨_, _, _, hsizes, hnet, _⟩ := RouteOp.undoStep_eq_some hundo
          rw [hsizes, hnet]
          exact hfollows
      | withdrawn htakes => exact hwithdrawn htakes
      | hung => exact (op.tracks_hangVia _ _ _).trans hfollows
      | @jumped command => exact hwithdrawn (.switchLayer command)
      | @hungBelow command =>
          exact (op.withdrawVia.tracks_hangVia _ _ _).trans (hwithdrawn (.switchLayer command))

/-- A route begins with tracks as the design settings say. -/
theorem Opens.followsDesign {t : Tool} {p : Point} {id : Option ItemId} {op : RouteOp}
    (h : t.Opens p id op) : op.sizes.tracks = t.board.design.tracksFor op.net := by
  have hkey (item : Option Item) :
      (SizingKey.ofStart (startNet item) item).netCode = startNet item := by
    cases item <;> rfl
  rw [h.fresh]
  show (t.startSizes _ _).tracks = t.board.design.tracksFor (startNet _)
  rw [startSizes, Sizes.tracks_addLayerPair, Sizing.tracks_resolve_forBoard, hkey]

/-- Switching the layer of a route without a via at its head does not touch its tracks. -/
theorem Alters.tracks_of_switchLayer {t : Tool} {op way : RouteOp} {command : LayerCommand}
    {b : Board} (h : t.Alters op (.switchLayer command) way b) (hvia : op.via = none) :
    way.sizes.tracks = op.sizes.tracks ∧ way.net = op.net ∧ b = t.board := by
  have hbare : op.withdrawVia = op := RouteOp.withdrawVia_of_none hvia
  cases h with
  | renewed hredesigns => cases hredesigns
  | rerouted hchange =>
      cases hchange with
      | kept => exact ⟨rfl, rfl, rfl⟩
      | withdrawn => rw [hbare]; exact ⟨rfl, rfl, rfl⟩
      | jumped => rw [hbare]; exact ⟨rfl, rfl, rfl⟩
      | hungBelow => rw [hbare]; exact ⟨op.tracks_hangVia _ _ _, rfl, rfl⟩

/-- Behind a command that takes a via back, the tracks have the sizes that the via
remembers. -/
theorem TakesViaBack.tracks {t t' : Tool} {c : Command} {refusal : Option CommandRefusal}
    {op : RouteOp} {p : PendingVia} (htakes : TakesViaBack c) (hop : t.session.route? = some op)
    (hvia : op.via = some p) (h : t.execute c = .ok (t', refusal)) :
    ∃ op', t'.session.route? = some op' ∧ op'.sizes.tracks = p.sizesBefore.tracks ∧
      op'.net = op.net ∧ t'.board = t.board := by
  have hsizes := RouteOp.sizes_withdrawVia hvia
  cases htakes with
  | placeVia v target =>
      obtain ⟨op', hop', hsame, hboard⟩ :=
        placeVia_withdraws hop (hvia ▸ rfl) (Checked.of_tagged h)
      exact ⟨op', hop', by rw [hsame.sizes, hsizes], hsame.net.trans (net_withdrawVia op), hboard⟩
  | switchLayer command =>
      have hswitch := Checked.of_tagged h
      obtain ⟨op', hop'⟩ := (switchLayer_quiet hswitch).route_runs hop
      -- what runs comes from the route without its via
      have hbare : (t.mapSession Session.withdrawVia).session.route? = some op.withdrawVia := by
        rw [mapSession, Session.route?_withdrawVia, hop, Option.map_some]
      rw [← switchLayer_withdrawVia] at hswitch
      obtain ⟨hcommand, _, _, _⟩ | ⟨hway, halters, hsame, hboard⟩ :=
        switchLayer_derives hop' hswitch
      · cases hcommand
      · cases hbare.symm.trans hway
        obtain ⟨htracks, hnet, hb⟩ := halters.tracks_of_switchLayer op.via_withdrawVia
        refine ⟨op', hop', ?_, ?_, hboard.trans hb⟩
        · rw [hsame.sizes, htracks, hsizes]
        · rw [hsame.net, hnet, net_withdrawVia]

/-- **A turn keeps to the design settings** exactly when its command does not mis-size the
route. -/
theorem turn_followsDesign_iff {t t' : Tool} {k : Turn} (ht : t.Orderly)
    (hfollows : t.FollowsDesign) (h : t.turn k = .ok t') :
    t'.FollowsDesign ↔ ¬ (t.ready k).Missizes k.command := by
  obtain ⟨refusal, h⟩ := turn_eq_ok.mp h
  constructor
  · intro hkept hbad
    generalize k.command = c at h hbad
    cases hbad with
    | classes hop hother =>
        obtain ⟨op', hop', hsame, hboard⟩ := changeDesign_renews hop (Checked.of_tagged h)
        have htracks := hkept op' hop'
        rw [hsame.sizes, hsame.net, hboard, tracks_renewSizes_classes] at htracks
        exact hother htracks
    | stale htakes hop hvia hstale =>
        obtain ⟨op', hop', htracks, hnet, hboard⟩ := htakes.tracks hop hvia h
        have hlast := hkept op' hop'
        rw [htracks, hnet, hboard] at hlast
        exact hstale hlast
  · intro hgood op' hop'
    cases execute_derives (ht.ready k) hop' h with
    | began _ _ hopens hboard =>
        rw [hboard]
        exact hopens.followsDesign
    | altered hop halters hsame hboard =>
        rw [hsame.sizes, hsame.net, hboard]
        exact halters.followsDesign hop (hfollows _ hop) hgood

/-- The head leaves from own copper, the tracks follow the design settings, and so does
what the vias of the route remember. -/
structure KeepsTracks (t : Tool) : Prop where
  backs : t.Backs
  own : t.StartsOwn
  follows : t.FollowsDesign
  vias : t.ViasSatisfy trackSource fun tracks p => p.sizesBefore.tracks = tracks

/-- Then the next command mis-sizes nothing. -/
theorem KeepsTracks.not_missizes {t : Tool} (ht : t.KeepsTracks) (c : Command) :
    ¬ t.Missizes c := by
  intro hbad
  cases hbad with
  | classes hop hother =>
      rw [RouteOp.netCode_sizingKey (ht.own _ hop)] at hother
      exact hother rfl
  | stale _ hop hvia hstale => exact hstale (ht.vias.head _ _ hop hvia)

/-- Under the invariant a route without its via has its tracks from the one source. -/
theorem KeepsTracks.withdrawVia {t : Tool} {op : RouteOp} (ht : t.KeepsTracks)
    (hop : t.session.route? = some op) :
    op.withdrawVia.sizes.tracks = t.board.design.tracksFor op.net := by
  cases hvia : op.via with
  | none => rw [RouteOp.withdrawVia_of_none hvia, ht.follows op hop]
  | some p =>
      rw [RouteOp.sizes_withdrawVia hvia]
      exact ht.vias.head op p hop hvia

/-- What a via at the head remembers follows the design settings. -/
theorem KeepsTracks.sizesBefore {t : Tool} {op way : RouteOp} {c : Command} {b : Board}
    {p : PendingVia} (ht : t.KeepsTracks) (hop : t.session.route? = some op)
    (halters : t.Alters op c way b) (hp : way.via = some p) :
    p.sizesBefore.tracks = b.design.tracksFor way.net := by
  cases halters with
  | paired =>
      rw [op.via_usePair] at hp
      rw [(op.sameWay_usePair _).net]
      exact ht.vias.head op p hop hp
  | @renewed _ change hredesigns =>
      obtain ⟨old, _, rfl⟩ := Option.map_eq_some_iff.mp hp
      have hnet : (op.sizingKey (t.board.redesign change)).netCode = op.net :=
        RouteOp.netCode_sizingKey (ht.own op hop)
      show (Sizing.renew _ _ _ _ old.sizesBefore).tracks = _
      rw [Sizing.tracks_renew, hnet]
      rfl
  | rerouted hchange =>
      cases hchange with
      | kept => exact ht.vias.head op p hop hp
      | extended => cases hp
      | undone hundo =>
          obtain ⟨s, hlast, hvia, _, hnet, _⟩ := RouteOp.undoStep_eq_some hundo
          rw [hnet]
          exact ht.vias.steps op s p hop (List.mem_of_getLast? hlast) (hvia ▸ hp)
      | withdrawn => cases op.via_withdrawVia.symm.trans hp
      | hung =>
          cases hp
          exact ht.follows op hop
      | jumped => cases op.via_withdrawVia.symm.trans hp
      | hungBelow =>
          cases hp
          show op.withdrawVia.sizes.tracks = t.board.design.tracksFor op.withdrawVia.net
          rw [net_withdrawVia]
          exact ht.withdrawVia hop

/-- A turn keeps the invariant, unless it strays or changes the source behind a via. -/
theorem turn_keepsTracks {t t' : Tool} {k : Turn} (ht : t.KeepsTracks)
    (hgood : ¬ ((t.ready k).Strays k.command ∨ (t.ready k).ChangesBehindVia trackSource k.command))
    (h : t.turn k = .ok t') : t'.KeepsTracks := by
  rw [not_or] at hgood
  have horderly := ht.backs.orderly
  have hready : (t.ready k).KeepsTracks :=
    ⟨ht.backs.ready k, ht.own, ht.follows, ht.vias.head, ht.vias.steps⟩
  refine ⟨turn_backs ht.backs ht.own h, (turn_startsOwn_iff ht.backs ht.own h).mpr hgood.1,
    (turn_followsDesign_iff horderly ht.follows h).mpr (hready.not_missizes _), ?_,
    turn_stepVias horderly ht.vias hgood.2 h⟩
  intro op' p hop' hp
  obtain ⟨refusal, h⟩ := turn_eq_ok.mp h
  cases execute_derives hready.backs.orderly hop' h with
  | began _ _ hopens _ =>
      rw [hopens.fresh] at hp
      cases hp
  | altered hop halters hsame hboard =>
      have hremembers := hready.sizesBefore hop halters (hsame.via ▸ hp)
      rw [measured, trackSource, hboard, hsame.net]
      exact hremembers

/-- **The tracks of the route have the one source that is current for its net**
throughout a service exactly when no command mis-sizes them; and so whenever no command
strays and their source never changes while a fixed step ends with a via. -/
theorem serve_followsDesign_iff (board : Board) (world : World) (options : Options)
    (rules : RuleSet) (search : TreeSearch) (confirms : Bool) (os : List Occasion) :
    ((new board world options rules search confirms).Serving (Always FollowsDesign) os ↔
      (new board world options rules search confirms).Serving (Avoids Missizes) os) ∧
      ((new board world options rules search confirms).Serving
          (Avoids fun t c => t.Strays c ∨ t.ChangesBehindVia trackSource c) os →
        (new board world options rules search confirms).Serving (Always FollowsDesign) os) := by
  have horderly := orderly_new board world options rules search confirms
  have hnone (op : RouteOp) :
      (new board world options rules search confirms).session.route? ≠ some op := nofun
  have hstart : (new board world options rules search confirms).KeepsTracks :=
    ⟨⟨traces_new board world options rules search confirms, fun op hop => absurd hop (hnone op)⟩,
      fun op hop => absurd hop (hnone op), fun op hop => absurd hop (hnone op),
      fun op _ hop => absurd hop (hnone op), fun op _ _ hop => absurd hop (hnone op)⟩
  constructor
  · refine serving_always_iff_avoids (J := fun t => t.Orderly ∧ t.FollowsDesign)
      (fun _ o ht => ⟨ht.1.prompted o, ht.2⟩) (fun t k t' ht hgood h => ?_) (fun _ ht => ht.2)
      (fun t k t' ht h hkept => ?_) ⟨horderly, hstart.follows⟩
    · exact ⟨(turn_advances ht.1 h).orderly, (turn_followsDesign_iff ht.1 ht.2 h).mpr hgood⟩
    · exact (turn_followsDesign_iff ht.1 ht.2 h).mp hkept
  · refine serving_always_of_avoids (I := KeepsTracks) (fun t o h => ?_)
      (fun _ _ _ => turn_keepsTracks) (fun _ h => h.follows) hstart
    exact ⟨⟨⟨h.backs.orderly.prompted o, h.backs.traced⟩, h.backs.steps⟩, h.own, h.follows,
      h.vias.head, h.vias.steps⟩

/-- A track width set by hand right away is kept when the step is taken back. -/
theorem serve_followsDesign_stepBack :
    (launch Board.standard Options.standard [] true).Serving
        (Avoids fun t c => t.Strays c ∨ t.ChangesBehindVia trackSource c)
        (⟨.setCustomTrackWidth 300000, true, false⟩ :: viaStep ++ [backspace]) ∧
      (launch Board.standard Options.standard [] true).Serving (Always FollowsDesign)
        (⟨.setCustomTrackWidth 300000, true, false⟩ :: viaStep ++ [backspace]) ∧
      ∃ t op, (launch Board.standard Options.standard [] true).serve
          (⟨.setCustomTrackWidth 300000, true, false⟩ :: viaStep ++ [backspace]) = .ok t ∧
        t.session.route? = some op ∧ op.sizes.tracks.width = 300000 ∧
        op.sizes.tracks = t.board.design.tracksFor op.net := by
  have hopen (t : Tool) (p : Point) : ¬ t.Strays (.fixRoute p none false) := by
    intro hbad
    cases hbad with
    | fix _ _ _ _ hstray => exact hstray nofun
  have hstart (t : Tool) (p : Point) : ¬ t.Strays (.startRouting p none) := by
    intro hbad
    cases hbad with
    | start _ hopens hstray =>
        refine hstray ?_
        rw [hopens.fresh]
        nofun
  have havoids : (launch Board.standard Options.standard [] true).Serving
      (Avoids fun t c => t.Strays c ∨ t.ChangesBehindVia trackSource c)
      (⟨.setCustomTrackWidth 300000, true, false⟩ :: viaStep ++ [backspace]) := by
    refine serving_avoids_cons (c := .setCustomTrackWidth 300000) (by rfl)
      (not_or.mpr ⟨nofun, not_changesBehindVia fun op s hop hs => ?_⟩) ?_
    · cases hop
    refine serving_avoids_cons (c := .startRouting ⟨0, 0⟩ none) (by rfl)
      (not_or.mpr ⟨hstart _ _, not_changesBehindVia fun op s hop hs => ?_⟩) ?_
    · cases hop
    refine serving_avoids_cons (c := .placeVia .through none) (by rfl)
      (not_or.mpr ⟨nofun, not_changesBehindVia fun op s hop hs => ?_⟩) ?_
    · cases hop
      cases hs
    refine serving_avoids_cons (c := .fixRoute ⟨1000000, 0⟩ none false) (by rfl)
      (not_or.mpr ⟨hopen _ _, not_changesBehindVia fun op s hop hs => ?_⟩) ?_
    · cases hop
      cases hs
    refine serving_avoids_cons (c := .undoLastSegment) (by rfl) (not_or.mpr ⟨nofun, ?_⟩) trivial
    rintro ⟨_, _, _, _, _, hdone, _, hop', _, hkept, _⟩
    cases hdone
    cases hop'
    cases hkept
  have halways := (serve_followsDesign_iff Board.standard (some Board.standard) Options.standard _ _
    true (⟨.setCustomTrackWidth 300000, true, false⟩ :: viaStep ++ [backspace])).2 havoids
  obtain ⟨t, op, hserve, hop, hwidth⟩ :
      ∃ t op, (launch Board.standard Options.standard [] true).serve
          (⟨.setCustomTrackWidth 300000, true, false⟩ :: viaStep ++ [backspace]) = .ok t ∧
        t.session.route? = some op ∧ op.sizes.tracks.width = 300000 :=
    ⟨_, _, by rfl, by rfl, by rfl⟩
  exact ⟨havoids, halways, t, op, hserve, hop, hwidth, halways.last hserve op hop⟩

/-- Set behind the step, it is lost when the via is taken back as well. -/
theorem serve_not_followsDesign :
    ¬ (launch Board.standard Options.standard [] true).Serving (Always FollowsDesign)
      (viaStep ++ [⟨.setCustomTrackWidth 300000, true, false⟩, backspace,
        ⟨.placeVia .through none, true, false⟩]) := by
  intro halways
  obtain ⟨t, op, hserve, hop, hold, hnew⟩ :
      ∃ t op, (launch Board.standard Options.standard [] true).serve
          (viaStep ++ [⟨.setCustomTrackWidth 300000, true, false⟩, backspace,
            ⟨.placeVia .through none, true, false⟩]) = .ok t ∧
        t.session.route? = some op ∧ op.sizes.tracks.width = 250000 ∧
        (t.board.design.tracksFor op.net).width = 300000 :=
    ⟨_, _, by rfl, by rfl, by rfl, by rfl⟩
  have hfollows := halways.last hserve op hop
  rw [hfollows, hnew] at hold
  cases hold

end Tool

end CopperRoute
