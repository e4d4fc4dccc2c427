import CopperRoute.Proofs.ClassRules

/-!
# Where every size comes from

`Sizing.resolve` starts from the sizes of the last route, its **seed**, and overwrites them in two
turns: one for the vias, one for tracks and differential pairs.  The turns look at different
flags of the request, so each may take another way than the other.  Still nothing of the seed
is left (`Sizing.resolve_settles`).

* A request **asks the rules** about its vias (`SizingRequest.AsksRules`) when class sizes are in
  force, and always for microvias.  Then the **last** rule that governs the via counts
  (`RuleSet.Prevails`), and where none does the minimum of the board.
* What a rule governs depends on the request alone: its net, its via type and its layer
  (`Rule.Governs`).  The smallest via that is put to the rules only carries these.
* Every size bears the name of the source that its value was taken from
  (`Sizing.ViaSizeFrom`, `NetClass.tracks`, `Design.customTracks`).
-/

namespace CopperRoute

/-- The vias of the request are sized by the rules. -/
def SizingRequest.AsksRules (r : SizingRequest) : Prop :=
  r.useNetClassSizes = true ∨ r.viaType = .microvia

/-- **A rule governs** the vias of a request: it is of the right kind, and nothing that it is
limited to is different in the request. -/
structure Rule.Governs (rule : Rule) (kind : ConstraintKind) (r : SizingRequest) : Prop where
  kind : rule.kind = kind
  net : ∀ nets, rule.condition.nets = some nets → r.key.netCode ∈ nets
  viaType : ∀ viaType, rule.condition.viaType = some viaType → viaType = r.viaType
  layer : ∀ layer, rule.condition.layer = some layer → layer = r.layer

/-- **The rule that prevails**: it governs, and none after it does. -/
def RuleSet.Prevails (s : RuleSet) (kind : ConstraintKind) (r : SizingRequest) (rule : Rule) :
    Prop :=
  ∃ before after, s.rules = before ++ rule :: after ∧ rule.Governs kind r ∧
    ∀ later ∈ after, ¬ later.Governs kind r

/-- The rules are asked about a via that stands for the request. -/
theorem Rule.governs_iff (rule : Rule) (kind : ConstraintKind) (b : Board) (r : SizingRequest) :
    (rule.kind == kind && rule.condition.holds (Sizing.candidateVia b r) r.layer) = true ↔
      rule.Governs kind r := by
  have htype (wanted : ViaType) : (r.viaType == wanted) = true ↔ wanted = r.viaType := by
    rw [beq_iff_eq, eq_comm]
  simp only [RuleCondition.holds, Sizing.candidateVia, Draft.via, Draft.withId, Bool.and_eq_true,
    Option.all_eq_true, List.contains_iff_mem, beq_iff_eq, htype]
  constructor
  · rintro ⟨hkind, ⟨hnet, hviaType⟩, hlayer⟩
    exact ⟨hkind, hnet, hviaType, hlayer⟩
  · rintro ⟨hkind, hnet, hviaType, hlayer⟩
    exact ⟨hkind, ⟨hnet, hviaType⟩, hlayer⟩

namespace RuleSet

variable (s : RuleSet) (kind : ConstraintKind) (b : Board) (r : SizingRequest)

/-- What the rules prescribe is the value of the rule that prevails. -/
theorem eval_eq_some_iff (size : UInt32) :
    s.eval kind (Sizing.candidateVia b r) r.layer = some size ↔
      ∃ rule, s.Prevails kind r rule ∧ rule.value = size := by
  rw [eval, Option.map_eq_some_iff]
  refine exists_congr fun rule => and_congr_left fun _ => ?_
  have hfails (later : Rule) :
      (!(later.kind == kind && later.condition.holds (Sizing.candidateVia b r) r.layer)) = true ↔
        ¬ later.Governs kind r := by
    rw [Bool.not_eq_true', ← Bool.not_eq_true, Rule.governs_iff]
  simp only [List.find?_eq_some_iff_append, Rule.governs_iff, hfails]
  -- the rules are asked from the last one on
  constructor
  · rintro ⟨hgoverns, after, before, hsplit, hafter⟩
    exact ⟨before.reverse, after.reverse, by simpa using congrArg List.reverse hsplit, hgoverns,
      fun later hlater => hafter later (List.mem_reverse.mp hlater)⟩
  · rintro ⟨before, after, hsplit, hgoverns, hafter⟩
    exact ⟨hgoverns, after.reverse, before.reverse, by simp [hsplit],
      fun later hlater => hafter later (List.mem_reverse.mp hlater)⟩

/-- Nothing is prescribed when no rule governs. -/
theorem eval_eq_none_iff :
    s.eval kind (Sizing.candidateVia b r) r.layer = none ↔
      ∀ rule ∈ s.rules, ¬ rule.Governs kind r := by
  rw [eval, Option.map_eq_none_iff, List.find?_eq_none]
  simp only [List.mem_reverse, Rule.governs_iff]

end RuleSet

/-- Sizes are the same when their vias, their tracks, their type and their pairs are. -/
theorem Sizes.ext_parts {s s' : Sizes} (hvias : ∀ kind, s.viaSize kind = s'.viaSize kind)
    (htracks : s.tracks = s'.tracks) (htype : s.viaType = s'.viaType)
    (hpairs : s.layerPairs = s'.layerPairs) : s = s' := by
  have hdiameter := hvias .viaDiameter
  have hdrill := hvias .holeSize
  cases s
  cases s'
  simp_all [viaSize, tracks]

namespace Sizing

variable (b : Board) (r : SizingRequest) (rules : RuleSet)

/-- **The sources of via sizes**, each with its name. -/
inductive ViaSizeFrom (kind : ConstraintKind) : UInt32 × SizeSource → Prop
  /-- The rule that prevails. -/
  | rule {rule : Rule} (hasks : r.AsksRules) (hprevails : rules.Prevails kind r rule) :
      ViaSizeFrom kind (rule.value, .rules)
  /-- The minimum of the board, where no rule governs. -/
  | minimum (hasks : r.AsksRules) (hnone : ∀ rule ∈ rules.rules, ¬ rule.Governs kind r) :
      ViaSizeFrom kind (b.design.minimumVia kind, .boardMinimum)
  /-- What is set by hand, where the rules are not asked. -/
  | custom (hown : ¬ r.AsksRules) : ViaSizeFrom kind (b.design.currentVia kind, .custom)

/-- The rules size a via as the one that prevails says, or else by the minimum. -/
theorem ruledSize_iff (kind : ConstraintKind) (hasks : r.AsksRules) (size : UInt32 × SizeSource) :
    ruledSize rules kind (candidateVia b r) r.layer (b.design.minimumVia kind) = size ↔
      ViaSizeFrom b r rules kind size := by
  unfold ruledSize
  cases heval : rules.eval kind (candidateVia b r) r.layer with
  | none =>
      have hnone := (rules.eval_eq_none_iff kind b r).mp heval
      constructor
      · rintro rfl
        exact .minimum hasks hnone
      · rintro (⟨_, hprevails⟩ | _ | hown)
        · -- a rule that prevails would have been found
          cases heval.symm.trans ((rules.eval_eq_some_iff kind b r _).mpr ⟨_, hprevails, rfl⟩)
        · rfl
        · exact absurd hasks hown
  | some value =>
      obtain ⟨rule, hprevails, rfl⟩ := (rules.eval_eq_some_iff kind b r _).mp heval
      constructor
      · rintro rfl
        exact .rule hasks hprevails
      · rintro (⟨_, hprevails'⟩ | ⟨_, hnone⟩ | hown)
        · -- no two rules prevail with different values
          have heval' := (rules.eval_eq_some_iff kind b r _).mpr ⟨_, hprevails', rfl⟩
          rw [Option.some.inj (heval.symm.trans heval')]
        · cases heval.symm.trans ((rules.eval_eq_none_iff kind b r).mpr hnone)
        · exact absurd hasks hown

/-- **Via sizes have one source**, whatever the seed. -/
theorem viaSize_resolve_iff (seed : Sizes) (kind : ConstraintKind) (size : UInt32 × SizeSource) :
    (resolve b r seed rules).viaSize kind = size ↔ ViaSizeFrom b r rules kind size := by
  have hasks : (r.useNetClassSizes || r.viaType == .microvia) = true ↔ r.AsksRules := by
    rw [Bool.or_eq_true, beq_iff_eq, SizingRequest.AsksRules]
  rw [viaSize_resolve]
  split
  · next h => exact ruledSize_iff b r rules kind (hasks.mp h) size
  · next h =>
      rw [hasks] at h
      constructor
      · rintro rfl
        exact .custom h
      · rintro (⟨hasks, _⟩ | ⟨hasks, _⟩ | _)
        · exact absurd hasks h
        · exact absurd hasks h
        · rfl

/-- **Every size comes from the source that it names.**  Nothing is left of the seed: there are
no layer pairs, the via type is the one of the request, and vias on the one side and tracks and
differential pairs on the other are sized by what the request says about them. -/
theorem resolve_settles (seed seed' : Sizes) :
    resolve b r seed rules = resolve b r seed' rules ∧
      (resolve b r seed rules).layerPairs = [] ∧
      (resolve b r seed rules).viaType = r.viaType ∧
      (∀ kind size, (resolve b r seed rules).viaSize kind = size ↔
        ViaSizeFrom b r rules kind size) ∧
      (resolve b r seed rules).tracks =
        if r.customSizesActive then b.design.customTracks
        else (b.design.netClassFor r.key.netCode).tracks := by
  have hpairs := layerPairs_resolve b rules r
  have htype (seed : Sizes) : (resolve b r seed rules).viaType = r.viaType := by
    rw [resolve, viaType_importTrack, viaType_resolveVia]
  have hvias (seed : Sizes) := viaSize_resolve_iff b r rules seed
  have htracks (seed : Sizes) := tracks_importTrack b r.key r.customSizesActive
    (resolveVia b r rules seed.clearLayerPairs)
  refine ⟨Sizes.ext_parts (fun kind => ?_) ?_ ?_ ?_, hpairs seed, htype seed, hvias seed,
    htracks seed⟩
  · exact (hvias seed kind _).mpr ((hvias seed' kind _).mp rfl)
  · exact (htracks seed).trans (htracks seed').symm
  · rw [htype, htype]
  · rw [hpairs, hpairs]

end Sizing

end CopperRoute
