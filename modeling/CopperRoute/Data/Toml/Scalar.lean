import CopperRoute.Data.Json

/-!
# TOML scalars

Texts in their four kinds of quotes, numbers, truth values, dates and times.  A
`Reader` takes what it reads off the front of the characters that are left.

* A basic text (`"`) knows escapes, a literal text (`'`) does not; both have a
  form of several lines with three quotes, which drops a line break right behind
  the opening quotes.
* Everything else that is not in quotes or brackets is a **bare word**, read as a
  whole and then recognized by its shape.
-/

namespace CopperRoute.Data.Toml

/-- Readers of characters. -/
abbrev Reader := StateT (List Char) Option

/-- A character that may not stand in a text or a comment. -/
def isControl (c : Char) : Bool := (c.toNat < 0x20 && c != '\t') || c.toNat = 0x7f

def isBlank (c : Char) : Bool := c == ' ' || c == '\t'

/-- The number written by hexadecimal digits. -/
def hexValue? (digits : List Char) : Option Nat :=
  digits.foldlM (fun n c => return 16 * n + (← Json.hexDigit? c)) 0

/-- The character with the number that the digits write. -/
def scalarOf? (digits : List Char) : Option Char := do
  let n ← hexValue? digits
  if n < 0xD800 ∨ (0xDFFF < n ∧ n < 0x110000) then return Char.ofNat n else none

/-- The character that a one-letter escape stands for. -/
def escaped? (c : Char) : Option Char :=
  if c == 'b' then some '\x08'
  else if c == 't' then some '\t'
  else if c == 'n' then some '\n'
  else if c == 'f' then some '\x0c'
  else if c == 'r' then some '\r'
  else if c == 'e' then some '\x1b'
  else if c == '"' || c == '\\' then some c
  else none

/-- The escape behind a backslash: its character, and how many characters were
read. -/
def escape? : List Char → Option (Char × Nat)
  | [] => none
  | c :: cs =>
    let digits := if c == 'x' then 2 else if c == 'u' then 4 else if c == 'U' then 8 else 0
    if digits = 0 then (escaped? c).map fun d => (d, 1)
    else if cs.length < digits then none
    else (scalarOf? (cs.take digits)).map fun d => (d, digits + 1)

/-- Does the line end here but for blanks? -/
def lineEnds (cs : List Char) : Bool :=
  match cs.dropWhile isBlank with
  | '\n' :: _ => true
  | '\r' :: '\n' :: _ => true
  | _ => false

/-- Inside a text of one line: what was read, newest first, and how many
characters of an escape are still to be passed over. -/
def lineText (quote : Char) : List Char → Nat → List Char → Option (List Char × List Char)
  | _, _, [] => none
  | acc, skip + 1, _ :: cs => lineText quote acc skip cs
  | acc, 0, c :: cs =>
    if c == quote then some (acc.reverse, cs)
    else if isControl c then none
    else if c == '\\' && quote == '"' then
      match escape? cs with
      | some (d, n) => lineText quote (d :: acc) n cs
      | none => none
    else lineText quote (c :: acc) 0 cs

/-- How many quotes stand at the front. -/
def quoteRun (quote : Char) (cs : List Char) : Nat := (cs.takeWhile (· == quote)).length

/-- Inside a text of several lines.  Up to two quotes may stand right before the
closing three; `trim` says that a backslash has cut the line break off, and with
it all white space that follows. -/
def blockText (quote : Char) : List Char → Nat → Bool → List Char →
    Option (List Char × List Char)
  | _, _, _, [] => none
  | acc, skip + 1, trim, _ :: cs => blockText quote acc skip trim cs
  | acc, 0, trim, c :: cs =>
    let run := quoteRun quote (c :: cs)
    if trim && (isBlank c || c == '\n' || (c == '\r' && cs.head? == some '\n')) then
      blockText quote acc 0 true cs
    else if 3 ≤ run then
      some ((List.replicate (min run 5 - 3) quote ++ acc).reverse, (c :: cs).drop (min run 5))
    else if c == '\\' && quote == '"' then
      if lineEnds cs then blockText quote acc 0 true cs
      else
        match escape? cs with
        | some (d, n) => blockText quote (d :: acc) n false cs
        | none => none
    else if isControl c && c != '\n' && !(c == '\r' && cs.head? == some '\n') then none
    else blockText quote (c :: acc) 0 false cs

/-- The characters behind a line break at the front. -/
def dropBreak : List Char → List Char
  | '\n' :: cs => cs
  | '\r' :: '\n' :: cs => cs
  | cs => cs

/-- A text, from its opening quote on. -/
def quoted (quote : Char) (blocks : Bool) : Reader String := fun cs => do
  let run := quoteRun quote cs
  let (read, rest) ←
    if blocks && 3 ≤ run then blockText quote [] 0 false (dropBreak (cs.drop 3))
    else if run = 0 then none
    else lineText quote [] 0 (cs.drop 1)
  return (String.ofList read, rest)

/-- The digits of a number without the underscores between them. -/
def digits? (isDigit : Char → Bool) (cs : List Char) : Option (List Char) :=
  let ds := cs.filter (· != '_')
  let alone := (cs.zip (cs.drop 1)).any fun p => p.1 == '_' && p.2 == '_'
  if ds.isEmpty || !ds.all isDigit || alone || cs.head? == some '_' || cs.getLast? == some '_' then
    none
  else some ds

/-- Decimal digits without superfluous zeros at the front. -/
def whole? (cs : List Char) : Option (List Char) := do
  let ds ← digits? Char.isDigit cs
  if ds.length = 1 || ds.head? != some '0' then return ds else none

/-- A sign, and what it stands before. -/
def splitSign : List Char → Bool × List Char
  | '-' :: cs => (true, cs)
  | '+' :: cs => (false, cs)
  | cs => (false, cs)

/-- A number in another base. -/
def based? (base : Nat) (cs : List Char) : Option Value := do
  let ds ← digits? (fun c => (Json.hexDigit? c).any (· < base)) cs
  return .int (ds.foldl (fun n c => base * n + (Json.hexDigit? c).getD 0) 0 : Nat)

def integer? (cs : List Char) : Option Value :=
  match cs with
  | '0' :: 'x' :: ds => based? 16 ds
  | '0' :: 'o' :: ds => based? 8 ds
  | '0' :: 'b' :: ds => based? 2 ds
  | _ => do
    let (negative, ds) := splitSign cs
    let n : Int := Json.digitsValue (← whole? ds)
    return .int (if negative then -n else n)

/-- A decimal number `m · 10 ^ e` of `places` digits in double precision, unless
it is too large.  Exponents far outside the range of doubles are settled by the
number of digits alone. -/
def decimal? (negative : Bool) (m places : Nat) (e : Int) : Option Float :=
  let x :=
    if m == 0 || e + places < -400 then 0.0
    else if e > 400 then 1.0 / 0.0
    else Float.ofScientific m (e < 0) e.natAbs
  if x.isInf then none else some (if negative then -x else x)

/-- A number with a fraction, an exponent or both. -/
def real? (cs : List Char) : Option Value := do
  let (negative, cs) := splitSign cs
  if cs == ['i', 'n', 'f'] then return .real (if negative then -1.0 / 0.0 else 1.0 / 0.0)
  if cs == ['n', 'a', 'n'] then return .real (0.0 / 0.0)
  let isMark (c : Char) : Bool := c == 'e' || c == 'E'
  let mantissa := cs.takeWhile fun c => !isMark c
  let digits ← whole? (mantissa.takeWhile (· != '.'))
  let part ← match mantissa.dropWhile (· != '.') with
    | [] => some []
    | _ :: ds => digits? Char.isDigit ds
  let exponent ← match cs.dropWhile fun c => !isMark c with
    | [] => some none
    | _ :: e =>
      let (below, ds) := splitSign e
      (digits? Char.isDigit ds).map fun ds =>
        some (if below then -(Json.digitsValue ds : Int) else Json.digitsValue ds)
  if part.isEmpty && exponent.isNone then none
  else
    let all := digits ++ part
    let x := decimal? negative (Json.digitsValue all) all.length (exponent.getD 0 - part.length)
    return (x.map Value.real).getD .tooLarge

/-- A number of exactly `n` digits within bounds. -/
def field? (n low high : Nat) (cs : List Char) : Option Nat :=
  let v := Json.digitsValue cs
  if cs.length = n ∧ cs.all Char.isDigit ∧ low ≤ v ∧ v ≤ high then some v else none

def daysInMonth (year month : Nat) : Nat :=
  if month = 2 then
    if year % 4 = 0 ∧ (year % 100 ≠ 0 ∨ year % 400 = 0) then 29 else 28
  else if month = 4 ∨ month = 6 ∨ month = 9 ∨ month = 11 then 30
  else 31

/-- A date such as `1979-05-27`. -/
def isDate (cs : List Char) : Bool :=
  (do
    let year ← field? 4 0 9999 (cs.take 4)
    let month ← field? 2 1 12 ((cs.drop 5).take 2)
    let _ ← field? 2 1 (daysInMonth year month) (cs.drop 8)
    guard (cs[4]? == some '-' && cs[7]? == some '-') : Option Unit).isSome

/-- Hours and minutes such as `07:32`. -/
def isHourMinute (cs : List Char) : Bool :=
  (field? 2 0 23 (cs.take 2)).isSome && cs[2]? == some ':' && (field? 2 0 59 (cs.drop 3)).isSome

/-- The fraction of a second, written out: to nine places, without zeros at its
end. -/
def fraction? : List Char → Option (List Char)
  | [] => some []
  | '.' :: ds =>
    if ds.isEmpty || !ds.all Char.isDigit then none
    else
      let kept := ((ds.take 9).reverse.dropWhile (· == '0')).reverse
      some (if kept.isEmpty then [] else '.' :: kept)
  | _ => none

/-- A time of day, written out: the seconds may be left out, and may have a
fraction. -/
def time? (cs : List Char) : Option (List Char) := do
  guard (isHourMinute (cs.take 5))
  match cs.drop 5 with
  | [] => return cs ++ [':', '0', '0']
  | c :: rest =>
    guard (c == ':' && (field? 2 0 60 (rest.take 2)).isSome)
    return cs.take 8 ++ (← fraction? (rest.drop 2))

/-- The offset of a zone, written out.  No offset is written with a plus. -/
def zone? : List Char → Option (List Char)
  | [] => some []
  | [c] => if c == 'Z' || c == 'z' then some ['Z'] else none
  | c :: offset =>
    if (c == '+' || c == '-') && isHourMinute offset then
      some ((if offset == ['0', '0', ':', '0', '0'] then '+' else c) :: offset)
    else none

/-- A time of day with the offset of its zone, if one is given. -/
def zonedTime? (cs : List Char) : Option (List Char) := do
  let isTimeChar (c : Char) : Bool := c.isDigit || c == ':' || c == '.'
  return (← time? (cs.takeWhile isTimeChar)) ++ (← zone? (cs.dropWhile isTimeChar))

/-- A date, a time of day, or both with a `T` or a blank between them, written
out. -/
def moment? (cs : List Char) : Option (List Char) :=
  if isDate cs then some cs
  else if isDate (cs.take 10) && (cs[10]?.any fun c => c == 'T' || c == 't' || c == ' ') then
    (zonedTime? (cs.drop 11)).map fun time => cs.take 10 ++ 'T' :: time
  else time? cs

def isWordChar (c : Char) : Bool :=
  c.isAlphanum || c == '_' || c == '-' || c == '+' || c == '.' || c == ':'

/-- The value that a bare word spells. -/
def word? (cs : List Char) : Option Value :=
  if cs == ['t', 'r', 'u', 'e'] then some (.bool true)
  else if cs == ['f', 'a', 'l', 's', 'e'] then some (.bool false)
  else ((integer? cs).or (real? cs)).or
    ((moment? cs).map fun m => .moment (String.ofList m))

/-- A bare word; a date may go on with a time behind a blank. -/
def bareWord : Reader Value := fun cs => do
  let word := cs.takeWhile isWordChar
  let rest := cs.dropWhile isWordChar
  match isDate word, rest with
  | true, ' ' :: d :: more =>
    if d.isDigit then
      let time := (d :: more).takeWhile isWordChar
      return (← word? (word ++ ' ' :: time), (d :: more).dropWhile isWordChar)
    else return (← word? word, rest)
  | _, _ => return (← word? word, rest)

end CopperRoute.Data.Toml
