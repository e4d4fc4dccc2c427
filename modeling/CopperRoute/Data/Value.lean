import CopperRoute.Keyed

/-!
# Structured data

Boards, options, scenarios and summaries are written as structured text.  A
`Value` is what such a text says once its spelling is forgotten: scalars, lists
and tables.  A type that can be read from a value has an instance of `FromValue`,
one that can be written an instance of `ToValue`.

* A **record** gives its fields by name in a table, or in order in a list.
* A **tagged** record names its variant in the field `type`, or as the first
  element of a list.
* An **enumeration** (`Named`) is the name of a variant, or a table with one
  entry that maps the name to nothing.

How strictly all this is taken depends on the **manner** of reading: whether a
list may go on behind the last field of a record, and what counts as nothing.
Entries that a record has no use for are passed over, but only if their numbers
are within bounds.
-/

namespace CopperRoute.Data

/-- What a structured text says. -/
inductive Value
  | null
  | bool (b : Bool)
  | int (n : Int)
  | real (x : Float)
  /-- A decimal number too large for a double. -/
  | tooLarge
  | text (s : String)
  /-- A date, a time of day or both, written out in full. -/
  | moment (s : String)
  | list (items : List Value)
  | table (entries : List (String × Value))
  deriving Inhabited

namespace Value

/-- The only name in a moment that is read as a table. -/
def momentName : String := "$__toml_private_datetime"

/-- The entries of a table.  A moment is a table of one entry, its text. -/
def entries? : Value → Option (List (String × Value))
  | .table entries => some entries
  | .moment s => some [(momentName, .text s)]
  | _ => none

/-- The entry of a table. -/
def member? (name : String) : Value → Option Value
  | .table entries => (Keyed.find? Prod.fst name entries).map Prod.snd
  | _ => none

def text? : Value → Option String
  | .text s => some s
  | _ => none

def list? : Value → Option (List Value)
  | .list items => some items
  | _ => none

/-- A whole number from `low` to `high`. -/
def intIn? (low high : Int) : Value → Option Int
  | .int n => if low ≤ n ∧ n ≤ high then some n else none
  | _ => none

mutual

/-- Are all whole numbers from `low` to `high`, and all others doubles? -/
def bounded (low high : Int) : Value → Bool
  | .int n => low ≤ n ∧ n ≤ high
  | .tooLarge => false
  | .list items => boundedItems low high items
  | .table entries => boundedEntries low high entries
  | _ => true

def boundedItems (low high : Int) : List Value → Bool
  | [] => true
  | v :: vs => bounded low high v && boundedItems low high vs

def boundedEntries (low high : Int) : List (String × Value) → Bool
  | [] => true
  | (_, v) :: es => bounded low high v && boundedEntries low high es

end

/-- Can the value be passed over?  Its whole numbers have at most 128 bits. -/
def passable (v : Value) : Bool :=
  v.bounded (-0x80000000000000000000000000000000) 0xffffffffffffffffffffffffffffffff

/-- Can the value be set aside and read later?  Its whole numbers have at most 64
bits. -/
def holdable (v : Value) : Bool := v.bounded (-0x8000000000000000) 0xffffffffffffffff

/-- The variant of a tagged record, and the record without a leading tag.  The
record is set aside until its variant is known. -/
def tagged? (v : Value) : Option (String × Value) := do
  guard v.holdable
  match v with
  | .table entries =>
    match Keyed.find? Prod.fst "type" entries with
    | some (_, .text tag) => some (tag, v)
    | _ => none
  | .list (.text tag :: rest) => some (tag, .list rest)
  | _ => none

/-- The variant of an enumeration, with its content if one is given. -/
def variant? : Value → Option (String × Option Value)
  | .text name => some (name, none)
  | .table [(name, content)] => some (name, some content)
  | _ => none

end Value

/-- The manner of reading a value. -/
inductive Manner
  /-- A list has as many elements as there are fields, and `null` is nothing. -/
  | strict
  /-- A list may go on behind the last field, and what is empty is nothing. -/
  | lenient
  /-- The value was set aside: lists as in the strict manner, and an empty table is
  nothing too. -/
  | held
  deriving DecidableEq

namespace Manner

/-- May more elements follow that nobody asked for? -/
def allows (how : Manner) (surplus : List Value) : Bool := how == .lenient || surplus.isEmpty

/-- Does the value stand for nothing? -/
def isNothing : Manner → Value → Bool
  | .strict, .null => true
  | .lenient, .list [] | .lenient, .table [] => true
  | .held, .null | .held, .table [] => true
  | _, _ => false

end Manner

/-- Types that can be read from a value. -/
class FromValue (α : Type) where
  fromValue? : Manner → Value → Option α

/-- Types that can be written as a value. -/
class ToValue (α : Type) where
  toValue : α → Value

export FromValue (fromValue?)
export ToValue (toValue)

instance : FromValue Value := ⟨fun _ => some⟩
instance : ToValue Value := ⟨id⟩

instance : FromValue Bool where
  fromValue?
    | _, .bool b => some b
    | _, _ => none

instance : ToValue Bool := ⟨.bool⟩

instance : FromValue String := ⟨fun _ => Value.text?⟩
instance : ToValue String := ⟨.text⟩

instance : FromValue UInt8 := ⟨fun _ v => (v.intIn? 0 255).map fun n => UInt8.ofNat n.toNat⟩
instance : ToValue UInt8 := ⟨fun n => .int n.toNat⟩

instance : FromValue UInt32 :=
  ⟨fun _ v => (v.intIn? 0 4294967295).map fun n => UInt32.ofNat n.toNat⟩
instance : ToValue UInt32 := ⟨fun n => .int n.toNat⟩

instance : FromValue UInt64 :=
  ⟨fun _ v => (v.intIn? 0 18446744073709551615).map fun n => UInt64.ofNat n.toNat⟩
instance : ToValue UInt64 := ⟨fun n => .int n.toNat⟩

instance : FromValue Int32 := ⟨fun _ v => (v.intIn? (-2147483648) 2147483647).map Int32.ofInt⟩
instance : ToValue Int32 := ⟨fun n => .int n.toInt⟩

instance : ToValue Nat := ⟨fun n => .int n⟩
instance : ToValue Int := ⟨.int⟩
instance : ToValue Float := ⟨.real⟩

/-- A value or nothing; `null` is nothing. -/
instance {α : Type} [FromValue α] : FromValue (Option α) where
  fromValue?
    | _, .null => some none
    | how, v => (fromValue? how v).map some

instance {α : Type} [ToValue α] : ToValue (Option α) where
  toValue
    | none => .null
    | some a => toValue a

/-- A list all of whose elements can be read. -/
instance {α : Type} [FromValue α] : FromValue (List α) where
  fromValue? how v := do (← v.list?).mapM (fromValue? how)

instance {α : Type} [ToValue α] : ToValue (List α) := ⟨fun xs => .list (xs.map toValue)⟩

/-- A list of two elements. -/
instance {α β : Type} [FromValue α] [FromValue β] : FromValue (α × β) where
  fromValue?
    | how, .list (a :: b :: surplus) => do
      guard (how.allows surplus)
      return (← fromValue? how a, ← fromValue? how b)
    | _, _ => none

instance {α β : Type} [ToValue α] [ToValue β] : ToValue (α × β) :=
  ⟨fun p => .list [toValue p.1, toValue p.2]⟩

/-- A table all of whose entries can be read, in the order it gives them. -/
def tableOf? (α : Type) [FromValue α] (how : Manner) (v : Value) :
    Option (List (String × α)) := do
  (← v.entries?).mapM fun (name, v) => return (name, ← fromValue? how v)

def ofTable {α : Type} [ToValue α] (entries : List (String × α)) : Value :=
  .table (entries.map fun (name, a) => (name, toValue a))

/-- Types of a few values, each with a name of its own. -/
class Named (α : Type) where
  all : List α
  name : α → String

instance {α : Type} [Named α] : FromValue α where
  fromValue? how v := do
    let (name, content) ← v.variant?
    guard (content.all how.isNothing)
    (Named.all (α := α)).find? fun a => Named.name a == name

instance {α : Type} [Named α] : ToValue α := ⟨fun a => .text (Named.name a)⟩

/-- A record that is being read: what stands for a field, if it is given. -/
structure Record where
  how : Manner
  field? : String → Option Value

/-- Read a record with the given fields.  What a table has besides is passed
over. -/
def Value.record? (how : Manner) (fields : List String) : Value → Option Record
  | .list items => do
    guard (how.allows (items.drop fields.length))
    return ⟨how, fun name => (Keyed.find? Prod.fst name (fields.zip items)).map Prod.snd⟩
  | v => do
    let entries ← v.entries?
    guard (entries.all fun e => fields.contains e.1 || e.2.passable)
    return ⟨how, fun name => (Keyed.find? Prod.fst name entries).map Prod.snd⟩

/-- A field that must be there. -/
def Record.get {α : Type} [FromValue α] (r : Record) (name : String) : Option α :=
  (r.field? name).bind (fromValue? r.how)

/-- A field that has a standard value when it is not given. -/
def Record.getD {α : Type} [FromValue α] (r : Record) (name : String) (standard : α) : Option α :=
  match r.field? name with
  | some v => fromValue? r.how v
  | none => some standard

end CopperRoute.Data
