import Wiring.Digest.Sha256
import Wiring.Plan.Encoding
import Wiring.Value.Json
/-!
# Fingerprints of plans

The fingerprint of a plan is the digest of its components, each written as compact JSON with
sorted fields on a line of its own. Plans with the same components have the same fingerprint,
whatever the number of rounds it took to find them.
-/

namespace Wiring.Plan

/-- The text from which the fingerprint is computed. -/
def fingerprintInput (p : Plan) : String :=
  String.join (p.components.map fun c => Json.compact c.toValue.canonical ++ "\n")

/-- The digest of the components. -/
def fingerprint (p : Plan) : String := "sha256:" ++ Sha256.hex p.fingerprintInput

end Wiring.Plan
