import CopperRoute.Data.Value

/-!
# JSON text

Reading takes two passes.  `Json.tokens?` cuts the characters into tokens, one
character at a time; `Json.read?` then keeps the lists and tables that are still
open on a stack and puts each finished value into the innermost of them.  Both
passes are one step per element, so they end on every text.

Writing knows two layouts: `Json.compact` on one line, and `Json.pretty` with
one entry per line, indented by two spaces for each open list or table.

* A whole number without fraction or exponent is an `int` when it fits a signed
  or unsigned double word; every other number is a `real`, its leading digits times
  or divided by a power of ten.
* A document nests at most 127 lists and tables.
* A `real` is written as the sixteen hexadecimal digits of its bits, so that a
  reader gets back exactly the number that was meant.
-/

namespace CopperRoute.Data.Json

inductive Token
  | openList
  | closeList
  | openTable
  | closeTable
  | colon
  | comma
  | scalar (v : Value)

/-- Where the tokenizer stands: between tokens, in a bare word, or in a text.
Characters already read are kept newest first. -/
inductive Place
  | between
  | word (read : List Char)
  | text (read : List Char)
  | escape (read : List Char)
  /-- Inside a four-digit code unit: the digits still to come, the value so far
  and a leading surrogate that waits for its partner. -/
  | unit (read : List Char) (left : Nat) (value : Nat) (lead : Option Nat)
  /-- Behind a leading surrogate; `slash` when the backslash was read. -/
  | partner (read : List Char) (lead : Nat) (slash : Bool)

def hexDigit? (c : Char) : Option Nat :=
  if '0' ≤ c ∧ c ≤ '9' then some (c.toNat - '0'.toNat)
  else if 'a' ≤ c ∧ c ≤ 'f' then some (c.toNat - 'a'.toNat + 10)
  else if 'A' ≤ c ∧ c ≤ 'F' then some (c.toNat - 'A'.toNat + 10)
  else none

def isBlank (c : Char) : Bool :=
  c == ' ' || c == '\n' || c == '\t' || c == '\r'

/-- The value of a run of decimal digits. -/
def digitsValue (ds : List Char) : Nat :=
  ds.foldl (fun n c => 10 * n + (c.toNat - '0'.toNat)) 0

/-- The digits of a fraction: none without a point, at least one behind it. -/
def fraction? : List Char → Option (List Char × List Char)
  | '.' :: rest =>
    let ds := rest.takeWhile Char.isDigit
    if ds.isEmpty then none else some (ds, rest.dropWhile Char.isDigit)
  | rest => some ([], rest)

/-- The exponent that closes a number, if there is one. -/
def exponent? : List Char → Option (Option Int)
  | [] => some none
  | e :: rest =>
    if e == 'e' || e == 'E' then
      let (negative, ds) := match rest with
        | '-' :: ds => (true, ds)
        | '+' :: ds => (false, ds)
        | ds => (false, ds)
      if ds.isEmpty || !ds.all Char.isDigit then none
      else some (some (if negative then -(digitsValue ds : Int) else digitsValue ds))
    else none

/-- Take digits behind a significand as long as it fits a double word: the new
significand, and the digits left over. -/
def significand (m : Nat) : List Char → Nat × List Char
  | [] => (m, [])
  | c :: cs =>
    let next := 10 * m + (c.toNat - '0'.toNat)
    if next < UInt64.size then significand next cs else (m, c :: cs)

/-- The largest power of ten that is a double. -/
def maxPower : Nat := 308

def powerOfTen (k : Nat) : Float := Float.ofScientific 1 false k

/-- Divide by `10 ^ k`, by the largest power at a time. -/
def scaleDown (x : Float) (k : Nat) : Float :=
  if k ≤ maxPower then x / powerOfTen k
  else if x == 0.0 then x
  else scaleDown (x / powerOfTen maxPower) (k - maxPower)
termination_by k
decreasing_by simp_all [maxPower]; omega

/-- The double for `m · 10 ^ e`, unless it is too large.  The significand and the
scaled number are rounded one after the other. -/
def scaled? (m : Nat) (e : Int) : Option Float :=
  let x := Float.ofNat m
  if e < 0 then some (scaleDown x e.natAbs)
  else
    let y := if e ≤ maxPower then x * powerOfTen e.natAbs else if m == 0 then x else 1.0 / 0.0
    if y.isInf then none else some y

/-- A number.  Of a long one only the leading digits count, as many as fit a double
word: left out digits in front of the point scale it up, and those behind it are
lost. -/
def number? (cs : List Char) : Option Value := do
  let (negative, cs) := match cs with
    | '-' :: rest => (true, rest)
    | rest => (false, rest)
  let whole := cs.takeWhile Char.isDigit
  guard !whole.isEmpty
  guard (whole.length == 1 || whole.head? != some '0')
  let (part, rest) ← fraction? (cs.dropWhile Char.isDigit)
  let exponent ← exponent? rest
  let (n, large) := significand 0 whole
  if part.isEmpty && exponent.isNone && large.isEmpty &&
      !(negative && (n == 0 || 0x8000000000000000 < n)) then
    return .int (if negative then -n else n)
  else
    let (m, lost) := significand n part
    let x ← scaled? m (exponent.getD 0 + large.length - (part.length - lost.length : Nat))
    return .real (if negative then -x else x)

/-- The scalar spelled by a bare word. -/
def word? (cs : List Char) : Option Value :=
  if cs == ['n', 'u', 'l', 'l'] then some .null
  else if cs == ['t', 'r', 'u', 'e'] then some (.bool true)
  else if cs == ['f', 'a', 'l', 's', 'e'] then some (.bool false)
  else number? cs

def isWordChar (c : Char) : Bool :=
  c.isAlphanum || c == '-' || c == '+' || c == '.'

/-- A character between two tokens. -/
def between (c : Char) : Option (List Token × Place) :=
  if isBlank c then some ([], .between)
  else if c == '[' then some ([.openList], .between)
  else if c == ']' then some ([.closeList], .between)
  else if c == '\x7b' then some ([.openTable], .between)
  else if c == '\x7d' then some ([.closeTable], .between)
  else if c == ':' then some ([.colon], .between)
  else if c == ',' then some ([.comma], .between)
  else if c == '"' then some ([], .text [])
  else if isWordChar c then some ([], .word [c])
  else none

/-- The character that a one-letter escape stands for. -/
def escaped? (c : Char) : Option Char :=
  if c == '"' || c == '\\' || c == '/' then some c
  else if c == 'b' then some '\x08'
  else if c == 'f' then some '\x0c'
  else if c == 'n' then some '\n'
  else if c == 'r' then some '\r'
  else if c == 't' then some '\t'
  else none

/-- A complete code unit: a character, or one half of a surrogate pair. -/
def closeUnit (read : List Char) (value : Nat) : Option Nat → Option (List Token × Place)
  | none =>
    if 0xD800 ≤ value ∧ value < 0xDC00 then some ([], .partner read value false)
    else if 0xDC00 ≤ value ∧ value < 0xE000 then none
    else some ([], .text (Char.ofNat value :: read))
  | some lead =>
    if 0xDC00 ≤ value ∧ value < 0xE000 then
      some ([], .text (Char.ofNat (0x10000 + (lead - 0xD800) * 0x400 + (value - 0xDC00)) :: read))
    else none

/-- Read one character. -/
def step (c : Char) : Place → Option (List Token × Place)
  | .between => between c
  | .word read =>
    if isWordChar c then some ([], .word (c :: read))
    else do
      let v ← word? read.reverse
      let (tokens, place) ← between c
      return (.scalar v :: tokens, place)
  | .text read =>
    if c == '"' then some ([.scalar (.text (String.ofList read.reverse))], .between)
    else if c == '\\' then some ([], .escape read)
    else if c.toNat < 0x20 then none
    else some ([], .text (c :: read))
  | .escape read =>
    if c == 'u' then some ([], .unit read 4 0 none)
    else (escaped? c).map fun d => ([], .text (d :: read))
  | .unit read left value lead => do
    let value := 16 * value + (← hexDigit? c)
    if left ≤ 1 then closeUnit read value lead else return ([], .unit read (left - 1) value lead)
  | .partner read lead slash =>
    if slash then if c == 'u' then some ([], .unit read 4 0 (some lead)) else none
    else if c == '\\' then some ([], .partner read lead true) else none

/-- Cut a text into tokens, from the given place on. -/
def tokensFrom : Place → List Char → List Token → Option (List Token)
  | .between, [], acc => some acc.reverse
  | .word read, [], acc => (word? read.reverse).map fun v => (.scalar v :: acc).reverse
  | _, [], _ => none
  | place, c :: cs, acc =>
    match step c place with
    | some (tokens, next) => tokensFrom next cs (tokens.reverse ++ acc)
    | none => none

def tokens? (s : String) : Option (List Token) := tokensFrom .between s.toList []

/-- A list or table that is still open, entries newest first; a table may have
read the name of its next entry. -/
inductive Frame
  | list (items : List Value)
  | table (entries : List (String × Value)) (name : String)

/-- What may come next. -/
inductive Expect
  | value
  | valueOrEnd
  | name
  | nameOrEnd
  | colon
  | separator
  | nothing
  deriving DecidableEq

structure Reader where
  frames : List Frame
  expect : Expect
  result : Value

/-- Put a finished value where it belongs. -/
def Reader.place (v : Value) : List Frame → Reader
  | [] => ⟨[], .nothing, v⟩
  | .list items :: rest => ⟨.list (v :: items) :: rest, .separator, .null⟩
  | .table entries name :: rest => ⟨.table ((name, v) :: entries) "" :: rest, .separator, .null⟩

/-- The deepest nesting of lists and tables. -/
def maxDepth : Nat := 127

def Reader.open (r : Reader) (frame : Frame) (expect : Expect) : Option Reader :=
  if r.frames.length < maxDepth then some ⟨frame :: r.frames, expect, .null⟩ else none

/-- Read one token.  A name that comes twice in a table keeps its first place
and its last value. -/
def Reader.step (r : Reader) (t : Token) : Option Reader :=
  match r.expect, t with
  | .value, .scalar v | .valueOrEnd, .scalar v => some (place v r.frames)
  | .value, .openList | .valueOrEnd, .openList => r.open (.list []) .valueOrEnd
  | .value, .openTable | .valueOrEnd, .openTable => r.open (.table [] "") .nameOrEnd
  | .name, .scalar (.text name) | .nameOrEnd, .scalar (.text name) =>
    match r.frames with
    | .table entries _ :: rest => some ⟨.table entries name :: rest, .colon, .null⟩
    | _ => none
  | .colon, .colon => some { r with expect := .value }
  | .separator, .comma =>
    match r.frames with
    | .list _ :: _ => some { r with expect := .value }
    | .table _ _ :: _ => some { r with expect := .name }
    | [] => none
  | .separator, .closeList | .valueOrEnd, .closeList =>
    match r.frames with
    | .list items :: rest => some (place (.list items.reverse) rest)
    | _ => none
  | .separator, .closeTable | .nameOrEnd, .closeTable =>
    match r.frames with
    | .table entries _ :: rest =>
      some (place (.table (Keyed.ofList Prod.fst entries.reverse)) rest)
    | _ => none
  | _, _ => none

/-- The value of a JSON text that holds exactly one. -/
def read? (s : String) : Option Value := do
  let r ← (← tokens? s).foldlM Reader.step ⟨[], .value, .null⟩
  if r.expect = .nothing then return r.result else none

def hexChar (n : Nat) : Char :=
  if n < 10 then Char.ofNat ('0'.toNat + n) else Char.ofNat ('a'.toNat + n - 10)

/-- The lowest `n` hexadecimal digits of a number. -/
def hexDigits (n : Nat) (v : Nat) : String :=
  String.ofList ((List.range n).reverse.map fun k => hexChar ((v >>> (4 * k)) % 16))

def escape (c : Char) : String :=
  if c == '"' then "\\\""
  else if c == '\\' then "\\\\"
  else if c == '\n' then "\\n"
  else if c == '\r' then "\\r"
  else if c == '\t' then "\\t"
  else if c == '\x08' then "\\b"
  else if c == '\x0c' then "\\f"
  else if c.toNat < 0x20 then "\\u" ++ hexDigits 4 c.toNat
  else String.singleton c

def quoted (s : String) : String :=
  s.toList.foldl (fun acc c => acc ++ escape c) "\"" ++ "\""

mutual

/-- One line, without blanks, behind the text already written. -/
def writeCompact (acc : String) : Value → String
  | .list items => writeItems (acc ++ "[") "" items ++ "]"
  | .table entries => writeEntries (acc ++ "\x7b") "" entries ++ "\x7d"
  | .null => acc ++ "null"
  | .bool b => acc ++ (if b then "true" else "false")
  | .int n => acc ++ toString n
  | .real x => acc ++ quoted (hexDigits 16 x.toBits.toNat)
  | .tooLarge => acc ++ "null"
  | .text s => acc ++ quoted s
  | .moment s => acc ++ quoted s

def writeItems (acc separator : String) : List Value → String
  | [] => acc
  | v :: vs => writeItems (writeCompact (acc ++ separator) v) "," vs

def writeEntries (acc separator : String) : List (String × Value) → String
  | [] => acc
  | (name, v) :: es => writeEntries (writeCompact (acc ++ separator ++ quoted name ++ ":") v) "," es

end

def compact (v : Value) : String := writeCompact "" v

/-- A new line with the indentation of the given depth. -/
def newline (depth : Nat) : String :=
  "\n" ++ String.ofList (List.replicate (2 * depth) ' ')

mutual

/-- One entry per line; an empty list or table stays on its line. -/
def writePretty (depth : Nat) : Value → String
  | .list [] => "[]"
  | .list (v :: vs) =>
    "[" ++ newline (depth + 1) ++ writePretty (depth + 1) v ++ prettyItems (depth + 1) vs ++
      newline depth ++ "]"
  | .table [] => "\x7b\x7d"
  | .table ((name, v) :: es) =>
    "\x7b" ++ newline (depth + 1) ++ quoted name ++ ": " ++ writePretty (depth + 1) v ++
      prettyEntries (depth + 1) es ++ newline depth ++ "\x7d"
  | .null => "null"
  | .bool b => if b then "true" else "false"
  | .int n => toString n
  | .real x => quoted (hexDigits 16 x.toBits.toNat)
  | .tooLarge => "null"
  | .text s => quoted s
  | .moment s => quoted s

def prettyItems (depth : Nat) : List Value → String
  | [] => ""
  | v :: vs => "," ++ newline depth ++ writePretty depth v ++ prettyItems depth vs

def prettyEntries (depth : Nat) : List (String × Value) → String
  | [] => ""
  | (name, v) :: es =>
    "," ++ newline depth ++ quoted name ++ ": " ++ writePretty depth v ++ prettyEntries depth es

end

def pretty (v : Value) : String := writePretty 0 v

end CopperRoute.Data.Json
