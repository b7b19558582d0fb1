import Wiring.Manifest.Basic
import Wiring.Resolution.Rounds
/-!
# Resolving a manifest

A manifest is resolved in rounds. The first round finds its components; a generated component is
found too as soon as its extension has asked for a new round.
-/

namespace Wiring.Manifest

/-- Finds the components of a manifest, and those of the extensions that have asked for a new
round. The names of these extensions are remembered. -/
def discoverer (m : Manifest) : Discoverer Tags where
  discover generated :=
    m.drafts ++ (m.extensions.filter fun e => generated.contains e.name).map ExtensionSpec.toDraft
  prepare generated request :=
    if m.extensions.any fun e => e.name == request.extension && e.generate then
      generated.insert request.extension
    else generated

/-- The resolver for a manifest, given the settings that it may set anew. -/
def resolver (m : Manifest) (base : Settings) : Resolver where
  types := m.types
  extensions := m.toExtensions
  hints := m.hints
  settings := m.settings base

end Wiring.Manifest
