import Wiring.CommandLine.Help
import Wiring.CommandLine.Report
import Wiring.Manifest.Load
import Wiring.Manifest.Rounds
import Wiring.Settings.Load
/-!
# The program

`Program.run` does what the arguments ask for in given surroundings: it reads settings and the
manifest, resolves it, and says what is to be shown or written. It changes nothing itself.
-/

namespace Wiring.CommandLine

/-- What the program finds around it. -/
structure Surroundings where
  /-- The files. -/
  files : Files
  /-- The settings file that the environment names. -/
  settingsPath : Option String
  /-- The home directory. -/
  home : Option String
  /-- Whether there are colours. -/
  colours : Bool

/-- What a successful command leads to. -/
inductive Outcome where
  /-- A text is shown. -/
  | shown (text : String)
  /-- A text is written to a file, and then another is shown. -/
  | written (path text message : String)
deriving DecidableEq, Repr

/-- What the program is to do in the end. -/
inductive Ending where
  /-- It succeeds. -/
  | done (o : Outcome)
  /-- It fails, and shows the reason. -/
  | failed (text : String)
  /-- The arguments cannot be used. -/
  | misused (text : String)
deriving DecidableEq, Repr

/-- How many steps a resolution may take. -/
def fuel : Nat := Nat.pow 10 15

/-- Resolves the manifest of a file. -/
def resolveFile (files : Files) (settings : Settings) (path : String) : Except Failure Plan := do
  let m ← Manifest.load files path
  let r := m.resolver settings
  if let .error e := r.settings.validate then
    throw (.within s!"Invalid [resolver] table in {path}" (.other e.message))
  match (r.drive fuel m.discoverer ∅).1 with
  | .ok plan => return plan
  | .error (.failure e) => throw (.error e)
  | .error .outOfFuel => throw (.other "the resolution takes too many steps")

/-- Carries out a command with given settings. -/
def Command.run (s : Surroundings) (settings : Settings) : Command → Except Failure Outcome
  | .resolve catalog format output => do
    if format ≠ "text" ∧ format ≠ "json" then
      throw (.other s!"Invalid format '{format}'. Valid formats are: text, json")
    let plan ← resolveFile s.files settings catalog
    let text := if format = "json" then Json.pretty plan.toValue else planText s.colours plan
    match output with
    | none => return .shown (text ++ "\n")
    | some path =>
      let mark := Style.green.paint s.colours "✓"
      return .written path (text ++ "\n") s!"{mark} Wrote {plan.size} component(s) to {path}\n"
  | .tree catalog component => do
    let plan ← resolveFile s.files settings catalog
    match component with
    | none =>
      return .shown (treesText s.colours catalog plan (plan.roots.map Component.index))
    | some name =>
      match plan.find? name with
      | some c => return .shown (treesText s.colours catalog plan [c.index])
      | none => throw (.other s!"Component '{name}' is not part of the resolved plan")

/-- What is shown about a failure. -/
def failureText (s : Surroundings) (f : Failure) : String := adviceText s.colours f.advise

/-- What is shown when a file cannot be written. -/
def writeFailureText (s : Surroundings) (path reason : String) : String :=
  failureText s (.within s!"Failed to write plan to {path}" (.other reason))

/-- Does what the arguments ask for. -/
def Program.run (s : Surroundings) (args : List String) : Ending :=
  match Arguments.parse args with
  | .error (.usage e) =>
    .misused s!"error: {e.message}\n\nFor more information, try '--help'.\n"
  | .error (.help level full) => .done (.shown (helpText s.colours level full))
  | .error .version => .done (.shown versionText)
  | .ok invocation =>
    let outcome := do
      let settings ← Settings.locate s.files invocation.config s.settingsPath s.home
      invocation.command.run s settings
    match outcome with
    | .ok o => .done o
    | .error f => .failed (failureText s f)

end Wiring.CommandLine
