import CopperRoute.Design

/-!
# Rules for via sizes

A **rule** prescribes the diameter or the hole of the vias it applies to.  Rules
are kept in order, and the **last** rule that applies wins.  `RuleSet.ofDesign`
turns the net classes of a board into rules: classes without nets come first, so
that the classes that list a net overrule them, and further rules come last.
-/

namespace CopperRoute

/-- What a rule prescribes. -/
inductive ConstraintKind
  | viaDiameter
  | holeSize
  deriving DecidableEq, Repr, Inhabited

/-- What a rule applies to; a part that is not given applies to everything. -/
structure RuleCondition where
  nets : Option (List NetCode)
  viaType : Option ViaType
  layer : Option LayerId
  deriving DecidableEq, Repr, Inhabited

/-- The condition that holds always. -/
def RuleCondition.always : RuleCondition := ⟨none, none, none⟩

/-- One prescribed size. -/
structure Rule where
  name : String
  kind : ConstraintKind
  value : UInt32
  condition : RuleCondition
  deriving DecidableEq, Repr, Inhabited

/-- Does the condition hold for the item on this layer?  Only vias have a via
type. -/
def RuleCondition.holds (c : RuleCondition) (i : Item) (layer : LayerId) : Bool :=
  (c.nets.all fun nets => nets.contains i.net) &&
    (c.viaType.all fun wanted =>
      match i.shape with
      | .via _ _ _ type => type == wanted
      | _ => false) &&
    c.layer.all fun l => l == layer

/-- Rules in order; a later rule overrules an earlier one. -/
structure RuleSet where
  rules : List Rule
  deriving DecidableEq, Repr, Inhabited

namespace RuleSet

/-- No rules: nothing is prescribed. -/
def empty : RuleSet := ⟨[]⟩

/-- The set with one more rule, which overrules the others. -/
def push (s : RuleSet) (r : Rule) : RuleSet := ⟨s.rules ++ [r]⟩

/-- The nets a class is limited to. -/
def classNets (c : NetClass) : Option (List NetCode) :=
  if c.nets.isEmpty then none else some c.nets

/-- The two rules of a net class. -/
def ofClass (named : String × NetClass) : List Rule :=
  let condition := { RuleCondition.always with nets := classNets named.2 }
  [⟨"netclass " ++ named.1 ++ ": via diameter", .viaDiameter, named.2.viaDiameter, condition⟩,
    ⟨"netclass " ++ named.1 ++ ": hole size", .holeSize, named.2.viaDrill, condition⟩]

/-- The rules of the net classes, then `extra`. -/
def ofDesign (d : Design) (extra : List Rule) : RuleSet :=
  let general := d.netClasses.filter fun c => c.2.nets.isEmpty
  let special := d.netClasses.filter fun c => !c.2.nets.isEmpty
  ⟨(general ++ special).flatMap ofClass ++ extra⟩

/-- The value that the last applicable rule prescribes. -/
def eval (s : RuleSet) (kind : ConstraintKind) (i : Item) (layer : LayerId) : Option UInt32 :=
  (s.rules.reverse.find? fun r => r.kind == kind && r.condition.holds i layer).map Rule.value

end RuleSet

end CopperRoute
