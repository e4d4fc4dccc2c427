import CopperRoute.Format.Scenario

/-!
# Replaying a scenario

A replay activates the tool on the board of a scenario, handles all intents in
order, and prints a summary.  Intents that are refused do not stop it.  A host
that nobody watches answers questions as the options say.

`Replay.program` is the whole program but for the files: given the texts of its
arguments it says what it prints and how it exits.
-/

namespace CopperRoute.Replay

/-- Handle intents in order. -/
def handleAll (t : Tool) : List Intent → Checked Tool
  | [] => return t
  | i :: rest => do handleAll (← t.handleIntent i).tool rest

/-- Replay a scenario. -/
def run (s : Scenario) (options : Options) : Checked Tool := do
  let board ← Board.ofFile s.board
  let t := Tool.launch board options s.rules options.autoConfirmLocked
  handleAll t (.activate :: s.intents)

def summary (t : Tool) : Summary where
  state := t.session.state
  committed := t.session.committed
  cancelled := t.session.cancelled
  commands := t.log.size
  errors := t.host.errors
  board := t.board.toFile

/-- How the program ends. -/
structure Outcome where
  status : UInt8
  output : String
  deriving DecidableEq, Repr

/-- The end without a scenario that could be read. -/
def Outcome.failure : Outcome := ⟨1, ""⟩

/-- The end by a fault. -/
def Outcome.fault : Outcome := ⟨101, ""⟩

/-- The scenario of a text. -/
def scenario? (source : Option String) : Option Scenario :=
  (source.bind Data.Toml.read?).bind (Data.fromValue? .lenient)

/-- The program on the texts of its arguments, the scenario first and then the
options; a file that cannot be read has no text. -/
def program (arguments : List (Option String)) : Outcome :=
  match arguments with
  | [] => .failure
  | source :: others =>
    match scenario? source with
    | none => .failure
    | some s =>
      match run s (Options.load others.head?.join) with
      | .ok t => ⟨0, Data.Json.pretty (Data.toValue (summary t)) ++ "\n"⟩
      | .error _ => .fault

end CopperRoute.Replay
