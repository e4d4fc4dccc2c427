import CopperRoute.Data.Toml.Scalar
import CopperRoute.Data.Toml.Tree

/-!
# TOML documents

A document is a sequence of lines.  A line enters a value under a key, opens a
table or adds an element to an array of tables; it may hold nothing but a comment.
`Toml.read?` reads a whole document as a table, in the order of its names.

The readers that call themselves count down from the number of characters, of
which every round takes at least one.
-/

namespace CopperRoute.Data.Toml

/-- The character at the front, left where it is. -/
def peek : Reader (Option Char) := fun cs => some (cs.head?, cs)

/-- Exactly this character. -/
def char (c : Char) : Reader Unit
  | d :: cs => if c == d then some ((), cs) else none
  | [] => none

def blanks : Reader Unit := fun cs => some ((), cs.dropWhile isBlank)

/-- Blanks and then a comment, if there is one. -/
def comment : Reader Unit := fun cs =>
  match cs.dropWhile isBlank with
  | '#' :: rest =>
    let text := rest.takeWhile (· != '\n')
    let text := if text.getLast? == some '\r' && text.length < rest.length then text.dropLast else text
    if text.any isControl then none else some ((), rest.drop text.length)
  | rest => some ((), rest)

/-- A line break, or the end of the document. -/
def lineBreak : Reader Unit
  | '\n' :: cs => some ((), cs)
  | '\r' :: '\n' :: cs => some ((), cs)
  | [] => some ((), [])
  | _ => none

/-- Blanks, comments and line breaks. -/
def gap : Nat → Reader Unit
  | 0 => pure ()
  | fuel + 1 => do
    comment
    match ← peek with
    | some '\n' | some '\r' =>
      lineBreak
      gap fuel
    | _ => pure ()

def isKeyChar (c : Char) : Bool := c.isAlphanum || c == '_' || c == '-'

/-- One name of a key: bare, or in quotes. -/
def keyName : Reader String := do
  match ← peek with
  | some '"' => quoted '"' false
  | some '\'' => quoted '\'' false
  | _ => fun cs =>
    let name := cs.takeWhile isKeyChar
    if name.isEmpty then none else some (String.ofList name, cs.dropWhile isKeyChar)

/-- The deepest nesting of arrays and inline tables, and the largest number of
names in a key. -/
def maxDepth : Nat := 80

/-- The names of a key: those before the last dot, and the last one. -/
def names : Nat → Reader (List String × String)
  | 0 => failure
  | fuel + 1 => do
    blanks
    let name ← keyName
    blanks
    if (← peek) == some '.' then
      char '.'
      let (path, last) ← names fuel
      return (name :: path, last)
    else return ([], name)

/-- A key. -/
def key (fuel : Nat) : Reader (List String × String) := do
  let k ← names fuel
  guard (k.1.length < maxDepth)
  return k

mutual

/-- A value within `depth` open brackets. -/
def value (depth : Nat) : Nat → Reader Value
  | 0 => failure
  | fuel + 1 => do
    match ← peek with
    | some '"' => return .text (← quoted '"' true)
    | some '\'' => return .text (← quoted '\'' true)
    | some '[' =>
      guard (depth < maxDepth)
      char '['
      return .list (← items (depth + 1) fuel)
    | some '\x7b' =>
      guard (depth < maxDepth)
      char '\x7b'
      return sortedTable (entriesToValues (← entries (depth + 1) fuel []))
    | _ => bareWord

/-- The values of an array, up to its closing bracket. -/
def items (depth : Nat) : Nat → Reader (List Value)
  | 0 => failure
  | fuel + 1 => do
    gap fuel
    if (← peek) == some ']' then
      char ']'
      return []
    let v ← value depth fuel
    gap fuel
    if (← peek) == some ',' then
      char ','
      return v :: (← items depth fuel)
    else
      char ']'
      return [v]

/-- The entries of an inline table, up to its closing brace.  Lines may break
everywhere but inside a key. -/
def entries (depth : Nat) : Nat → Entries → Reader Entries
  | 0, _ => failure
  | fuel + 1, es => do
    gap fuel
    if (← peek) == some '\x7d' then
      char '\x7d'
      return es
    let k ← key fuel
    gap fuel
    char '='
    gap fuel
    let v ← value depth fuel
    let es ← (assign k v es : Option Entries)
    gap fuel
    if (← peek) == some ',' then
      char ','
      entries depth fuel es
    else
      char '\x7d'
      return es

end

/-- The tables read so far, and the path of the last header. -/
structure Progress where
  root : Entries
  path : List String

/-- What one line adds. -/
def line (fuel : Nat) (p : Progress) : Reader Progress := do
  blanks
  match ← peek with
  | some '[' =>
    char '['
    if (← peek) == some '[' then
      char '['
      let k ← key fuel
      char ']'
      char ']'
      return ⟨← (openElement k p.root : Option Entries), k.1 ++ [k.2]⟩
    else
      let k ← key fuel
      char ']'
      return ⟨← (openTable k p.root : Option Entries), k.1 ++ [k.2]⟩
  | none | some '#' | some '\n' | some '\r' => return p
  | _ =>
    let k ← key fuel
    char '='
    blanks
    let v ← value 0 fuel
    return { p with root := ← (withinHeader p.path (assign k v) p.root : Option Entries) }

/-- All lines to the end. -/
def lines : Nat → Progress → Reader Progress
  | 0, p => return p
  | fuel + 1, p => do
    if (← peek).isNone then return p
    let p ← line fuel p
    comment
    lineBreak
    lines fuel p

/-- The table that a document describes.  A byte order mark at the front does not
count. -/
def read? (s : String) : Option Value := do
  let cs := match s.toList with
    | '\ufeff' :: cs => cs
    | cs => cs
  let (p, rest) ← (lines (cs.length + 1) ⟨[], []⟩).run cs
  if rest.isEmpty then return sortedTable (entriesToValues p.root) else none

end CopperRoute.Data.Toml
