import CopperRoute.Proofs.RouteSizes

/-!
# Net classes, and the rules made of them

A net class is read in two ways.  A net takes its track width from the first class that lists
it, or else from the class named `Default`.  Its via sizes come from rules: the **last** class
that lists the net rules, or else the last class **without nets**, whatever its name
(`Design.rulingClass?`, `RuleSet.eval_ofDesign`).

So the two readings part for a net in two ways (`Design.ReadTwice`): several classes list it
and have other via sizes, or none does, and a class without nets has other via sizes than the
fallback.  Exactly then the rules prescribe another size than the class of the net has, and
the sizes of a route come from two classes (`Design.rulesAgree_iff`).  Where no net is listed
twice and only `Default` is without nets, it happens to no net (`Design.Tidy`).
-/

namespace CopperRoute

/-- The size that a class has for rules of this kind. -/
def NetClass.viaSize (c : NetClass) : ConstraintKind → UInt32
  | .viaDiameter => c.viaDiameter
  | .holeSize => c.viaDrill

/-- The size of vias for rules of this kind, and where it came from. -/
def Sizes.viaSize (s : Sizes) : ConstraintKind → UInt32 × SizeSource
  | .viaDiameter => (s.viaDiameter, s.viaDiameterSource)
  | .holeSize => (s.viaDrill, s.viaDrillSource)

/-- The smallest size that the design allows for rules of this kind. -/
def Design.minimumVia (d : Design) : ConstraintKind → UInt32
  | .viaDiameter => d.minViaDiameter
  | .holeSize => d.minThroughDrill

/-- The size that is set by hand for rules of this kind. -/
def Design.currentVia (d : Design) : ConstraintKind → UInt32
  | .viaDiameter => d.currentViaSize
  | .holeSize => d.currentViaDrill

/-- The same via sizes. -/
def NetClass.SameVias (c c' : NetClass) : Prop := ∀ kind, c.viaSize kind = c'.viaSize kind

namespace Design

/-- The classes in order. -/
def classes (d : Design) : List NetClass := d.netClasses.map Prod.snd

/-- The class of the nets that none lists. -/
def fallbackClass (d : Design) : NetClass :=
  ((Keyed.find? Prod.fst defaultClassName d.netClasses).map Prod.snd).getD NetClass.standard

/-- The first class that lists a net. -/
def firstListing? (d : Design) (net : NetCode) : Option NetClass :=
  d.classes.find? fun c => c.nets.contains net

/-- The last class that lists a net. -/
def lastListing? (d : Design) (net : NetCode) : Option NetClass :=
  d.classes.reverse.find? fun c => c.nets.contains net

/-- The last class without nets. -/
def lastGeneral? (d : Design) : Option NetClass := d.classes.reverse.find? fun c => c.nets.isEmpty

/-- **The class that rules** the vias of a net. -/
def rulingClass? (d : Design) (net : NetCode) : Option NetClass :=
  (d.lastListing? net).or d.lastGeneral?

end Design

/-- Whether the rules of a class hold for copper depends on its net alone. -/
theorem RuleSet.holds_classNets (c : NetClass) (i : Item) (layer : LayerId) :
    ({ RuleCondition.always with nets := classNets c } : RuleCondition).holds i layer =
      (c.nets.isEmpty || c.nets.contains i.net) := by
  unfold classNets
  split
  · next hempty => simp [RuleCondition.holds, RuleCondition.always, hempty]
  · next hsome => simp [RuleCondition.holds, RuleCondition.always, hsome]

/-- **The last class that applies** prescribes its own size. -/
theorem RuleSet.eval_classes (named : List (String × NetClass)) (kind : ConstraintKind) (i : Item)
    (layer : LayerId) :
    (⟨named.flatMap ofClass⟩ : RuleSet).eval kind i layer =
      ((named.map Prod.snd).reverse.find? fun c =>
        c.nets.isEmpty || c.nets.contains i.net).map (·.viaSize kind) := by
  -- on the last class: its rules are the first to be asked
  induction named using List.reverseRecOn with
  | nil => rfl
  | append_singleton named c ih =>
      unfold eval at ih ⊢
      have hholds := holds_classNets c.2 i layer
      simp only [List.flatMap_append, List.flatMap_cons, List.flatMap_nil, List.append_nil,
        List.reverse_append, List.find?_append, List.map_append, List.map_cons, List.map_nil,
        List.reverse_singleton, Option.map_or, ih]
      congr 1
      cases happlies : c.2.nets.isEmpty || c.2.nets.contains i.net
      · cases kind <;> simp_all [ofClass]
      · cases kind <;> simp_all [ofClass, NetClass.viaSize]

/-- A design asks the classes with nets before those without, each from the last one on. -/
theorem Design.rulingClass?_eq (d : Design) (net : NetCode) :
    ((((d.netClasses.filter fun c => c.2.nets.isEmpty) ++
        d.netClasses.filter fun c => !c.2.nets.isEmpty).map Prod.snd).reverse.find? fun c =>
          c.nets.isEmpty || c.nets.contains net) = d.rulingClass? net := by
  have hlisting (c : NetClass) :
      (!c.nets.isEmpty && (c.nets.isEmpty || c.nets.contains net)) = c.nets.contains net := by
    cases hnets : c.nets <;> simp
  have hgeneral (c : NetClass) :
      (c.nets.isEmpty && (c.nets.isEmpty || c.nets.contains net)) = c.nets.isEmpty := by
    cases c.nets.isEmpty <;> rfl
  rw [rulingClass?, lastListing?, lastGeneral?, classes, List.map_append, List.reverse_append,
    List.find?_append]
  congr 1
  · rw [← List.map_reverse, ← List.filter_reverse, ← List.map_reverse, List.find?_map,
      List.find?_map, List.find?_filter]
    simp only [Function.comp_def, Bool.decide_and, Bool.decide_eq_true, hlisting]
  · rw [← List.map_reverse, ← List.filter_reverse, ← List.map_reverse, List.find?_map,
      List.find?_map, List.find?_filter]
    simp only [Function.comp_def, Bool.decide_and, Bool.decide_eq_true, hgeneral]

/-- **What the rules of a design prescribe**: further rules come first, then the ruling
class. -/
theorem RuleSet.eval_ofDesign (d : Design) (extra : List Rule) (kind : ConstraintKind) (i : Item)
    (layer : LayerId) :
    (ofDesign d extra).eval kind i layer =
      ((⟨extra⟩ : RuleSet).eval kind i layer).or
        ((d.rulingClass? i.net).map (·.viaSize kind)) := by
  rw [← d.rulingClass?_eq, ← eval_classes _ kind i layer]
  simp only [ofDesign, eval, List.reverse_append, List.find?_append, Option.map_or]

/-- Without further rules the ruling class decides alone. -/
theorem RuleSet.eval_ofDesign_nil (d : Design) (kind : ConstraintKind) (i : Item)
    (layer : LayerId) :
    (ofDesign d []).eval kind i layer = (d.rulingClass? i.net).map (·.viaSize kind) := by
  rw [eval_ofDesign]
  rfl

namespace Design

/-- The class of a net is the first that lists it, or the fallback. -/
theorem netClassFor_eq (d : Design) (net : NetCode) :
    d.netClassFor net = (d.firstListing? net).getD d.fallbackClass := by
  unfold netClassFor firstListing? classes fallbackClass
  rw [List.find?_map, Function.comp_def]
  cases d.netClasses.find? fun c => c.2.nets.contains net with
  | some c => rfl
  | none => cases Keyed.find? Prod.fst defaultClassName d.netClasses <;> rfl

/-- **Rules and classes agree on a net**: whatever the rules prescribe for its vias is the
size that its class has. -/
def RulesAgree (d : Design) (net : NetCode) : Prop :=
  ∀ (candidate : Item) (layer : LayerId) (kind : ConstraintKind) (size : UInt32),
    candidate.isVia = true → candidate.net = net →
      (RuleSet.ofDesign d []).eval kind candidate layer = some size →
        size = (d.netClassFor net).viaSize kind

/-- **The sizes come from one class**: when class sizes are in force, a request for the net
gets the track width of its class, and every via size that comes from the rules is of the same
class. -/
def SizesFromOneClass (d : Design) (net : NetCode) : Prop :=
  ∀ (b : Board) (r : SizingRequest) (seed : Sizes), b.design = d → r.key.netCode = net →
    r.useNetClassSizes = true → r.customSizesActive = false →
      let s := Sizing.resolve b r seed (RuleSet.ofDesign d [])
      s.trackWidth = (d.netClassFor net).trackWidth ∧
        ∀ kind size, s.viaSize kind = (size, .rules) → size = (d.netClassFor net).viaSize kind

/-- **The classes of a net are read in two ways.** -/
inductive ReadTwice (d : Design) (net : NetCode) : Prop
  /-- Several classes list it; the first counts for tracks, the last for vias. -/
  | listed {first last : NetClass} (hfirst : d.firstListing? net = some first)
      (hlast : d.lastListing? net = some last) (hother : ¬ last.SameVias first)
  /-- No class lists it; the fallback counts for tracks, the last class without nets for
  vias. -/
  | unlisted {general : NetClass} (hnone : d.firstListing? net = none)
      (hgeneral : d.lastGeneral? = some general) (hother : ¬ general.SameVias d.fallbackClass)

/-- From either end a class is met that lists the net, or from none. -/
theorem lastListing?_isSome (d : Design) (net : NetCode) :
    (d.lastListing? net).isSome = (d.firstListing? net).isSome := by
  rw [Bool.eq_iff_iff, lastListing?, firstListing?, List.find?_isSome, List.find?_isSome]
  simp only [List.mem_reverse]

/-- The two readings part when the ruling class has other via sizes than that of the net. -/
theorem not_readTwice_iff (d : Design) (net : NetCode) :
    ¬ d.ReadTwice net ↔ ∀ c, d.rulingClass? net = some c → c.SameVias (d.netClassFor net) := by
  have hboth := d.lastListing?_isSome net
  rw [netClassFor_eq]
  cases hfirst : d.firstListing? net with
  | none =>
      have hlast : d.lastListing? net = none := by simpa [hfirst] using hboth
      rw [rulingClass?, hlast, Option.none_or, Option.getD_none]
      constructor
      · intro h c hc
        by_contra hother
        exact h (.unlisted hfirst hc hother)
      · rintro h (⟨hfirst', _, _⟩ | ⟨_, hgeneral, hother⟩)
        · cases hfirst.symm.trans hfirst'
        · exact hother (h _ hgeneral)
  | some first =>
      obtain ⟨last, hlast⟩ : ∃ last, d.lastListing? net = some last :=
        Option.isSome_iff_exists.mp (by rw [hboth, hfirst]; rfl)
      rw [rulingClass?, hlast, Option.some_or, Option.getD_some]
      constructor
      · rintro h c ⟨⟩
        by_contra hother
        exact h (.listed hfirst hlast hother)
      · rintro h (⟨hfirst', hlast', hother⟩ | ⟨hnone, _, _⟩)
        · cases hfirst.symm.trans hfirst'
          exact hother (h _ (hlast.symm.trans hlast'))
        · cases hfirst.symm.trans hnone

/-- The rules agree with the class of a net when the ruling class has its via sizes. -/
theorem rulesAgree_iff_ruling (d : Design) (net : NetCode) :
    d.RulesAgree net ↔ ∀ c, d.rulingClass? net = some c → c.SameVias (d.netClassFor net) := by
  constructor
  · intro h c hc kind
    refine h ((Draft.via Point.zero 0 0 .through ⟨.top, .top⟩ net).withId 0) .top kind _ rfl rfl ?_
    rw [RuleSet.eval_ofDesign_nil]
    exact congrArg (Option.map (·.viaSize kind)) hc
  · intro h candidate layer kind size _ hnet heval
    rw [RuleSet.eval_ofDesign_nil, hnet] at heval
    obtain ⟨c, hc, rfl⟩ := Option.map_eq_some_iff.mp heval
    exact h c hc kind

end Design

namespace Sizing

variable (b : Board) {r : SizingRequest} (seed : Sizes) (rules : RuleSet)

/-- With class sizes in force, tracks are as wide as the class of the net says. -/
theorem trackWidth_resolve (hcustom : r.customSizesActive = false) :
    (resolve b r seed rules).trackWidth = (b.design.netClassFor r.key.netCode).trackWidth := by
  simp [resolve, importTrack, hcustom]

/-- **How vias are sized**: by the rules if the request asks them, by hand otherwise. -/
theorem viaSize_resolve (kind : ConstraintKind) :
    (resolve b r seed rules).viaSize kind =
      if r.useNetClassSizes || r.viaType == .microvia then
        ruledSize rules kind (candidateVia b r) r.layer (b.design.minimumVia kind)
      else (b.design.currentVia kind, .custom) := by
  have himport (s : Sizes) :
      (importTrack b r.key r.customSizesActive s).viaSize kind = s.viaSize kind := by
    cases r.customSizesActive <;> cases kind <;> rfl
  rw [resolve, himport, resolveVia]
  cases r.useNetClassSizes || r.viaType == .microvia <;> cases kind <;> rfl

/-- A size comes from the rules exactly when these prescribe it. -/
theorem ruledSize_eq_iff {rules : RuleSet} {kind : ConstraintKind} {i : Item} {layer : LayerId}
    {minimum size : UInt32} :
    ruledSize rules kind i layer minimum = (size, .rules) ↔
      rules.eval kind i layer = some size := by
  unfold ruledSize
  cases rules.eval kind i layer <;> simp

end Sizing

namespace Design

/-- **The sizes of a route** come from one class exactly when the rules agree with it. -/
theorem sizesFromOneClass_iff (d : Design) (net : NetCode) :
    d.SizesFromOneClass net ↔ d.RulesAgree net := by
  constructor
  · intro h candidate layer kind size _ hnet heval
    -- the rules ask nothing but the net of the candidate
    rw [RuleSet.eval_ofDesign_nil, hnet] at heval
    let r : SizingRequest := ⟨.net net, .through, ⟨.top, .top⟩, .top, true, false⟩
    refine (h (Board.empty Stackup.standard d) r .standard rfl rfl rfl rfl).2 kind size ?_
    rw [Sizing.viaSize_resolve]
    refine Sizing.ruledSize_eq_iff.mpr ?_
    rw [RuleSet.eval_ofDesign_nil]
    exact heval
  · rintro h b r seed rfl rfl huse hcustom
    refine ⟨Sizing.trackWidth_resolve b seed _ hcustom, fun kind size hsize => ?_⟩
    rw [Sizing.viaSize_resolve, huse, Bool.true_or, if_pos rfl] at hsize
    exact h _ _ kind size rfl rfl (Sizing.ruledSize_eq_iff.mp hsize)

/-- **Tidy classes**: no net is listed twice, and only the fallback is without nets. -/
structure Tidy (d : Design) : Prop where
  named : (d.netClasses.map Prod.fst).Nodup
  once : d.classes.Pairwise fun c c' => c.nets.Disjoint c'.nets
  general : ∀ c ∈ d.netClasses, c.2.nets = [] → c.1 = defaultClassName

/-- When no net is listed twice, one class alone lists it. -/
theorem eq_of_listing {cs : List NetClass}
    (honce : cs.Pairwise fun c c' => c.nets.Disjoint c'.nets) {c c' : NetClass} (hc : c ∈ cs)
    (hc' : c' ∈ cs) {net : NetCode} (hnet : net ∈ c.nets) (hnet' : net ∈ c'.nets) : c = c' := by
  by_contra hother
  have : Std.Symm fun c c' : NetClass => c.nets.Disjoint c'.nets :=
    ⟨fun _ _ h _ hnet hnet' => h hnet' hnet⟩
  exact honce.forall hc hc' hother hnet hnet'

/-- **Tidy classes are read in one way.** -/
theorem Tidy.not_readTwice {d : Design} (h : d.Tidy) (net : NetCode) : ¬ d.ReadTwice net := by
  rintro (⟨hfirst, hlast, hother⟩ | ⟨_, hgeneral, hother⟩)
  · -- both are the one class that lists the net
    have hsame := eq_of_listing h.once (List.mem_of_find?_eq_some hfirst)
      (List.mem_reverse.mp (List.mem_of_find?_eq_some hlast))
      (by simpa using List.find?_some hfirst) (by simpa using List.find?_some hlast)
    exact hother (hsame ▸ fun _ => rfl)
  · -- both are the class with the name of the fallback
    obtain ⟨c, hc, rfl⟩ :=
      List.mem_map.mp (List.mem_reverse.mp (List.mem_of_find?_eq_some hgeneral))
    have hname := h.general c hc (by simpa using List.find?_some hgeneral)
    refine hother ?_
    rw [fallbackClass, ← hname, Keyed.find?_of_mem h.named hc]
    exact fun _ => rfl

/-- **Rules and classes agree** on a net, and the sizes of its routes come from one class, exactly
when its classes are not read in two ways; which never happens where they are tidy. -/
theorem rulesAgree_iff (d : Design) (net : NetCode) :
    (d.RulesAgree net ↔ ¬ d.ReadTwice net) ∧ (d.SizesFromOneClass net ↔ ¬ d.ReadTwice net) ∧
      (d.Tidy → d.RulesAgree net) := by
  have hagree : d.RulesAgree net ↔ ¬ d.ReadTwice net :=
    (d.rulesAgree_iff_ruling net).trans (d.not_readTwice_iff net).symm
  exact ⟨hagree, (d.sizesFromOneClass_iff net).trans hagree,
    fun htidy => hagree.mpr (htidy.not_readTwice net)⟩

/-- The standard design with another class. -/
def withClass (name : String) (c : NetClass) : Design :=
  { standard with netClasses := standard.netClasses ++ [(name, c)] }

/-- A class with nets of its own leaves nothing open. -/
theorem rulesAgree_iff_power :
    (withClass "Power" { NetClass.standard with viaDiameter := 1200000, nets := [7] }).Tidy ∧
      (withClass "Power" { NetClass.standard with viaDiameter := 1200000, nets := [7] }).RulesAgree
        7 := by
  have htidy : (withClass "Power"
      { NetClass.standard with viaDiameter := 1200000, nets := [7] }).Tidy :=
    ⟨by decide, by simp [withClass, classes, standard, NetClass.standard], by decide⟩
  exact ⟨htidy, (rulesAgree_iff _ 7).2.2 htidy⟩

/-- A second class without nets rules the vias of all nets, and the track widths of none. -/
theorem not_rulesAgree_fine :
    ¬ (withClass "Fine" { NetClass.standard with viaDiameter := 600000 }).RulesAgree 5 := by
  intro h
  have hsize := h ((Draft.via Point.zero 500000 300000 .through ⟨⟨0⟩, ⟨1⟩⟩ 5).withId 0) ⟨0⟩
    .viaDiameter 600000 rfl rfl (by decide)
  exact absurd hsize (by decide)

end Design

end CopperRoute
