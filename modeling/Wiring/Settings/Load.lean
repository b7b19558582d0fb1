import Wiring.Files
import Wiring.Settings.Encoding
import Wiring.Toml.Document
/-!
# Where settings come from

Settings are read from the file that was asked for, or else from the one that the environment
names, or else from the one in the home directory. Only a file that was asked for must exist; for
any other the usual settings are taken if it does not.
-/

namespace Wiring.Settings

/-- Reads settings from the text of a file. -/
def parse (path text : String) : Except Failure Settings := do
  let unreadable (reason : String) : Failure :=
    .within s!"Failed to parse resolver config from {path}" (.malformed reason)
  let value ←
    match Toml.parse text with
    | .ok v => pure v
    | .error e => throw (unreadable e.reason)
  let settings ←
    match ofValue .toml value with
    | .ok s => pure s
    | .error fault => throw (unreadable fault.message)
  match settings.validate with
  | .ok () => return settings
  | .error e => throw (.within s!"Invalid resolver config in {path}" (.other e.message))

/-- Reads settings from a file that must exist. -/
def load (files : Files) (path : String) : Except Failure Settings :=
  match (files path).read with
  | .ok text => parse path text
  | .error reason =>
    .error (.within s!"Failed to read resolver config from {path}" (.other reason))

/-- Reads settings from a file if it exists. -/
def loadIfPresent (files : Files) (path : String) : Except Failure Settings :=
  match files path with
  | .missing _ => .ok {}
  | _ => load files path

/-- The place of the settings file in a home directory. -/
def inHome (home : String) : String := home ++ "/.wiregraph/config.toml"

/-- Reads settings from the first of the places that is named: the file asked for, the one of the
environment, the one in the home directory. -/
def locate (files : Files) (explicit environment home : Option String) :
    Except Failure Settings :=
  match explicit, environment, home with
  | some path, _, _ => load files path
  | none, some path, _ => loadIfPresent files path
  | none, none, some home => loadIfPresent files (inHome home)
  | none, none, none => .error (.other "Unable to determine home directory")

end Wiring.Settings
