import CopperRoute.Data.Value

/-!
# Tables under construction

A TOML document fills its tables piece by piece: headers open tables, elements
are added to arrays of tables, and dotted keys reach into tables that need no
header.  The rules say what may be extended later, and depend on how a table came
to be:

* a table that a longer header implied may still get a header of its own;
* a table made by dotted keys takes more of them, but no header;
* a table with a header is not opened a second time;
* a value, inline tables and written-out arrays included, is closed.

A path of names may run through tables on its way, and through the last element
of an array of tables.  A longer header may run through every table.  Dotted keys
may not run through a table with a header, and where they end they enter their
value only into a table made by dotted keys.
-/

namespace CopperRoute.Data.Toml

/-- How a table came to be. -/
inductive Origin
  /-- A longer header runs through it. -/
  | implied
  /-- It has a header. -/
  | header
  /-- Dotted keys made it. -/
  | dotted
  deriving DecidableEq

inductive Node
  /-- A value, closed to extension. -/
  | leaf (v : Value)
  | table (origin : Origin) (entries : List (String × Node))
  /-- An array of tables, the last one first. -/
  | elements (tables : List (List (String × Node)))

abbrev Entries := List (String × Node)

/-- What a name stands for. -/
def node? (name : String) (es : Entries) : Option Node :=
  (Keyed.find? Prod.fst name es).map Prod.snd

def setEntry (name : String) (n : Node) (es : Entries) : Entries := Keyed.put Prod.fst (name, n) es

/-- Add an entry whose name is new. -/
def addEntry (name : String) (n : Node) (es : Entries) : Option Entries :=
  if (node? name es).isSome then none else some (setEntry name n es)

/-- Change the table that a path of names leads to, knowing how that table came to
be.  The path starts in a table of the given origin, and is a part of a dotted key
or of a header. -/
def within (dotted : Bool) (change : Origin → Entries → Option Entries) :
    Origin → List String → Entries → Option Entries
  | origin, [], es => change origin es
  | _, name :: path, es =>
    match node? name es with
    | none => do
      let made := if dotted then .dotted else .implied
      return setEntry name (.table made (← within dotted change made path [])) es
    | some (.table origin inner) => do
      guard (!(dotted && origin == .header))
      return setEntry name (.table origin (← within dotted change origin path inner)) es
    | some (.elements (last :: others)) => do
      return setEntry name (.elements ((← within dotted change .header path last) :: others)) es
    | _ => none

/-- Enter a value under a key, which may be dotted. -/
def assign (key : List String × String) (v : Value) (es : Entries) : Option Entries :=
  within true
    (fun origin es => do
      guard (key.1.isEmpty || origin == .dotted)
      addEntry key.2 (.leaf v) es)
    .header key.1 es

/-- Change the table that a header names. -/
def withinHeader (path : List String) (change : Entries → Option Entries) (es : Entries) :
    Option Entries :=
  within false (fun _ => change) .header path es

/-- Give a table its header. -/
def openTable (key : List String × String) (es : Entries) : Option Entries :=
  withinHeader key.1
    (fun es =>
      match node? key.2 es with
      | none => some (setEntry key.2 (.table .header []) es)
      | some (.table .implied inner) => some (setEntry key.2 (.table .header inner) es)
      | _ => none)
    es

/-- Add an element to an array of tables. -/
def openElement (key : List String × String) (es : Entries) : Option Entries :=
  withinHeader key.1
    (fun es =>
      match node? key.2 es with
      | none => some (setEntry key.2 (.elements [[]]) es)
      | some (.elements tables) => some (setEntry key.2 (.elements ([] :: tables)) es)
      | _ => none)
    es

/-- A table in the order of its names. -/
def sortedTable (entries : List (String × Value)) : Value :=
  .table (entries.mergeSort fun a b => a.1 ≤ b.1)

mutual

/-- The finished value. -/
def Node.toValue : Node → Value
  | .leaf v => v
  | .table _ entries => sortedTable (entriesToValues entries)
  | .elements tables => .list (tablesToValues tables).reverse

def entriesToValues : List (String × Node) → List (String × Value)
  | [] => []
  | (name, n) :: es => (name, n.toValue) :: entriesToValues es

def tablesToValues : List (List (String × Node)) → List Value
  | [] => []
  | es :: rest => sortedTable (entriesToValues es) :: tablesToValues rest

end

end CopperRoute.Data.Toml
