import CopperRoute.Text.Blank
import CopperRoute.Text.Uppercase

/-!
# Key chords

A **chord** is a key with modifiers, written as in `Ctrl+Shift+V`.  White space
around it does not count, nor does the case of a modifier; a key of one character
is kept in upper case.  The plus sign is both the separator and a key of its own:
`+` and `Ctrl++` end with that key.

`KeyChord.parse` reads a chord, `KeyChord.display` writes it.
-/

namespace CopperRoute

/-- What is wrong with a key binding. -/
inductive BindingError
  | emptyChord
  | unknownModifier (name : String)
  | unknownAction (name : String)
  deriving DecidableEq, Repr, Inhabited

def BindingError.message : BindingError → String
  | emptyChord => "leerer Tasten-Akkord"
  | unknownModifier name => "unbekannter Modifier '" ++ name ++ "'"
  | unknownAction name => "unbekannte Aktion '" ++ name ++ "'"

/-- A key with modifiers. -/
structure KeyChord where
  ctrl : Bool
  shift : Bool
  alt : Bool
  key : String
  deriving DecidableEq, Repr, Inhabited

namespace KeyChord

/-- The pieces of a text between plus signs. -/
def pieces : List Char → List (List Char)
  | [] => [[]]
  | c :: cs =>
    if c = '+' then [] :: pieces cs
    else
      match pieces cs with
      | piece :: rest => (c :: piece) :: rest
      | [] => [[c]]

/-- The text before and behind the last plus sign; without one it is all behind. -/
def splitKey (cs : List Char) : List Char × List Char :=
  ((cs.reverse.dropWhile (· != '+')).drop 1 |>.reverse,
    (cs.reverse.takeWhile (· != '+')).reverse)

/-- The modifiers and the key of a chord.  A plus sign at the end is the key when
it stands alone or behind another one. -/
def modifiersAndKey (cs : List Char) : List Char × List Char :=
  if cs = ['+'] then ([], ['+'])
  else if ['+', '+'] <:+ cs then (cs.take (cs.length - 2), ['+'])
  else splitKey cs

/-- A key of one character counts in upper case. -/
def keyName (key : List Char) : String :=
  match key with
  | [c] => String.ofList (Text.uppercase c)
  | _ => String.ofList key

/-- The chord with one more modifier. -/
def addModifier (chord : KeyChord) (modifier : List Char) : Except BindingError KeyChord :=
  match String.ofList (modifier.map Char.toLower) with
  | "ctrl" | "strg" => .ok { chord with ctrl := true }
  | "shift" => .ok { chord with shift := true }
  | "alt" => .ok { chord with alt := true }
  | name => .error (.unknownModifier name)

/-- Read a chord. -/
def parse (s : String) : Except BindingError KeyChord :=
  let cs := Text.trim s.toList
  let (modifiers, key) := modifiersAndKey cs
  if cs.isEmpty || key.isEmpty then .error .emptyChord
  else
    ((pieces modifiers).filter fun m => !m.isEmpty).foldlM addModifier
      ⟨false, false, false, keyName key⟩

/-- Write a chord. -/
def display (chord : KeyChord) : String :=
  (if chord.ctrl then "Ctrl+" else "") ++ (if chord.shift then "Shift+" else "") ++
    (if chord.alt then "Alt+" else "") ++ chord.key

end KeyChord

end CopperRoute
