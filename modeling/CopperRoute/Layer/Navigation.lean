import CopperRoute.Layer

/-!
# Walking through the layers

The user moves through the **enabled** layers of a board: on to the next one,
back to the previous one, around the ends in a cycle, or straight to a layer.  A
command resolves to the layer it leads to, or to nothing when that layer is not
enabled or is the current one already.
-/

namespace CopperRoute

/-- Where the user wants to go. -/
inductive LayerCommand
  | next
  | prev
  | top
  | bottom
  /-- The `n`-th inner layer, counted from one. -/
  | inner (n : UInt8)
  deriving DecidableEq, Repr, Inhabited

namespace LayerCommand

/-- The place of a layer among the enabled ones; a layer that is not enabled
counts as the first. -/
def position (current : LayerId) (enabled : List LayerId) : Nat :=
  (enabled.idxOf? current).getD 0

/-- The enabled layer after `current`, after the last one the first. -/
def following (current : LayerId) (enabled : List LayerId) : Option LayerId :=
  enabled[(position current enabled + 1) % enabled.length]?

/-- The enabled layer before `current`, before the first one the last. -/
def preceding (current : LayerId) (enabled : List LayerId) : Option LayerId :=
  match position current enabled with
  | 0 => enabled.getLast?
  | i + 1 => enabled[i]?

/-- The layer a command names, enabled or not.  The lowest enabled layer is no
inner layer. -/
def target (command : LayerCommand) (current : LayerId) (enabled : List LayerId) :
    Option LayerId :=
  match command with
  | next => following current enabled
  | prev => preceding current enabled
  | top => enabled.head?
  | bottom => enabled.getLast?
  | inner n => if n = 0 ∨ some ⟨n⟩ = enabled.getLast? then none else some ⟨n⟩

/-- The layer a command leads to. -/
def resolve (command : LayerCommand) (current : LayerId) (enabled : List LayerId) :
    Option LayerId :=
  (command.target current enabled).filter fun l => l != current && enabled.contains l

end LayerCommand

end CopperRoute
