import Wiring.Files
import Wiring.Manifest.Encoding
import Wiring.Toml.Document
/-!
# Reading manifests

A manifest is read from a TOML text and validated.
-/

namespace Wiring.Manifest

/-- Reads a manifest from the text of a file. -/
def parse (text file : String) : Except Error Manifest := do
  let value ←
    match Toml.parse text with
    | .ok v => pure v
    | .error e => throw (.invalidManifest file e.reason)
  let manifest ←
    match ofValue .toml value with
    | .ok m => pure m
    | .error fault => throw (.invalidManifest file fault.message)
  match manifest.validate with
  | .ok () => return manifest
  | .error e => throw (.invalidManifest file e.message)

/-- Reads a manifest from a file. -/
def load (files : Files) (path : String) : Except Failure Manifest :=
  match (files path).read with
  | .error reason => .error (.within s!"Failed to read catalog file: {path}" (.other reason))
  | .ok text =>
    match parse text path with
    | .ok m => .ok m
    | .error e => .error (.error e)

end Wiring.Manifest
