import CopperRoute.Arithmetic

/-!
# Undo and redo

A **history** keeps earlier states in two stacks, newest first: those that undo
goes back to, and those that redo goes forward to.  Neither grows beyond the
capacity; what does not fit is forgotten from the old end.  Recording a state
forgets what could be redone.
-/

namespace CopperRoute

/-- Earlier states of type `α`. -/
structure History (α : Type) where
  capacity : Nat
  undoStack : List α
  redoStack : List α
  deriving Repr

namespace History

variable {α : Type}

def ofCapacity (capacity : Nat) : History α := ⟨capacity, [], []⟩

/-- A state is kept by the eight bytes of its address, and no block of memory has
`2 ^ 63` bytes: so many states are too many for one stack. -/
def addressable : Nat := 0x1000000000000000

/-- A history that sets memory aside for all its states at once. -/
def reserve (capacity : Nat) : Checked (History α) :=
  if capacity < addressable then .ok (ofCapacity capacity) else .error .overflow

/-- A stack with a new top, cut to the capacity at the old end. -/
def push (h : History α) (a : α) (stack : List α) : List α := (a :: stack).take h.capacity

/-- Keep a state to go back to.  A history without capacity cannot. -/
def record (h : History α) (a : α) : Checked (History α) :=
  if h.capacity = 0 then .error .noCapacity
  else .ok { h with undoStack := h.push a h.undoStack, redoStack := [] }

def canUndo (h : History α) : Bool := !h.undoStack.isEmpty

def canRedo (h : History α) : Bool := !h.redoStack.isEmpty

/-- Go back from `current`: the state to go to, and what then remains. -/
def undo (h : History α) (current : α) : Option (α × History α) :=
  match h.undoStack with
  | [] => none
  | a :: rest => some (a, { h with undoStack := rest, redoStack := h.push current h.redoStack })

/-- Go forward from `current`: the state to go to, and what then remains. -/
def redo (h : History α) (current : α) : Option (α × History α) :=
  match h.redoStack with
  | [] => none
  | a :: rest => some (a, { h with redoStack := rest, undoStack := h.push current h.undoStack })

end History

end CopperRoute
