import CopperRoute.Data.Json

/-!
# Writing TOML

An entry is written as `key = value` on a line of its own.  A key of letters,
digits, underscores and hyphens stays bare.  Texts and all other keys come into
the plainest quotes that need no escape: double quotes, single quotes, for values
then three quotes of either kind; only if none will do are there escapes.
-/

namespace CopperRoute.Data.Toml

/-- A character that cannot be written without an escape. -/
def needsEscape (c : Char) : Bool :=
  (c.toNat < 0x20 && c != '\t' && c != '\n') || c.toNat = 0x7f

/-- The longest run of a character. -/
def longestRun (c : Char) (cs : List Char) : Nat :=
  (cs.foldl (fun (best, run) d => if d == c then (max best (run + 1), run + 1) else (best, 0))
    (0, 0)).1

/-- A character as it stands between double quotes. -/
def writeEscaped (block : Bool) (c : Char) : String :=
  if c == '\\' then "\\\\"
  else if c == '"' then "\\\""
  else if c == '\x08' then "\\b"
  else if c == '\t' then "\\t"
  else if c == '\n' then if block then "\n" else "\\n"
  else if c == '\x0c' then "\\f"
  else if c == '\r' then "\\r"
  else if needsEscape c then "\\u" ++ (Json.hexDigits 4 c.toNat).toUpper
  else String.singleton c

/-- The characters between double quotes, `run` plain quotes behind others.  A quote
that would be the third in a row of a block is escaped, so that the row does not
close it. -/
def writeAll (block : Bool) : Nat → List Char → String
  | _, [] => ""
  | run, c :: cs =>
    if c == '"' && block && run < 2 then "\"" ++ writeAll block (run + 1) cs
    else writeEscaped block c ++ writeAll block 0 cs

/-- On one line, between double quotes. -/
def basic (s : String) : String := "\"" ++ writeAll false 0 s.toList ++ "\""

def literal (s : String) : String := "'" ++ s ++ "'"

/-- The line break behind the opening quotes of a block that has more than one
line. -/
def opening (s : String) : String := if s.toList.contains '\n' then "\n" else ""

def basicBlock (s : String) : String :=
  "\"\"\"" ++ opening s ++ writeAll true 0 s.toList ++ "\"\"\""

def literalBlock (s : String) : String := "'''" ++ opening s ++ s ++ "'''"

/-- A text as a value. -/
def text (s : String) : String :=
  let cs := s.toList
  let controls := cs.any needsEscape
  let broken := cs.contains '\n'
  let double := longestRun '"' cs
  let single := longestRun '\'' cs
  if !controls && !cs.contains '\\' && double = 0 && !broken then basic s
  else if !controls && single = 0 && !broken then literal s
  else if !controls && !cs.contains '\\' && double ≤ 2 then basicBlock s
  else if !controls && single ≤ 2 then literalBlock s
  else if broken then basicBlock s
  else basic s

/-- A name as a key. -/
def keyText (s : String) : String :=
  let cs := s.toList
  let controls := cs.any needsEscape || cs.contains '\n'
  if !cs.isEmpty && cs.all fun c => c.isAlphanum || c == '_' || c == '-' then s
  else if !controls && !cs.contains '\\' && !cs.contains '"' then basic s
  else if !controls && !cs.contains '\'' then literal s
  else basic s

/-- One line: a key and a written value. -/
def entry (name written : String) : String := keyText name ++ " = " ++ written ++ "\n"

end CopperRoute.Data.Toml
