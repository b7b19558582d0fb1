import Wiring.Main
import Wiring.Plan.Graph.Order
import Wiring.Proofs.Universe.Search
import Wiring.Proofs.Universe.Table
import Wiring.Proofs.Universe.Ground
import Wiring.Proofs.Universe.Finite
import Wiring.Proofs.Universe.Reachability
import Wiring.Proofs.Universe.Vocabulary
import Wiring.Proofs.TypeExpr.Matching
import Wiring.Proofs.TypeExpr.Size
import Wiring.Proofs.Universe.Expansion
import Wiring.Proofs.TypeExpr.Solutions
import Wiring.Proofs.Universe.Stability
import Wiring.Proofs.Universe.Unification
import Wiring.Proofs.TypeExpr.Grammar
import Wiring.Proofs.Declaration
import Wiring.Proofs.Catalog
import Wiring.Proofs.Plan.Links
import Wiring.Proofs.Plan.Cycles
import Wiring.Proofs.Plan.Order
import Wiring.Proofs.Plan.Queries
import Wiring.Proofs.Plan.Tree
import Wiring.Proofs.Resolution.Lookup
import Wiring.Proofs.Resolution.Moves
import Wiring.Proofs.Resolution.Runs
import Wiring.Proofs.Resolution.Faults
import Wiring.Proofs.Resolution.Cycles
import Wiring.Proofs.Resolution.Unresolved
import Wiring.Proofs.Resolution.Growth
import Wiring.Proofs.Resolution.Order
import Wiring.Proofs.Resolution.Identity
import Wiring.Proofs.Resolution.Edges
import Wiring.Proofs.Resolution.Proxies
import Wiring.Proofs.Resolution.Forwarding
import Wiring.Proofs.Resolution.Provenance
import Wiring.Proofs.Resolution.Index
import Wiring.Proofs.Resolution.Preference
import Wiring.Proofs.Resolution.Ambiguity
import Wiring.Proofs.Resolution.Interception
import Wiring.Proofs.Resolution.Precedence
import Wiring.Proofs.Resolution.Demand
import Wiring.Proofs.Resolution.Course
import Wiring.Proofs.Resolution.Rivals
import Wiring.Proofs.Resolution.Commitment
import Wiring.Proofs.Resolution.Acyclic
import Wiring.Proofs.Resolution.Branches
import Wiring.Proofs.Resolution.Adoption
import Wiring.Proofs.Resolution.Fuel
import Wiring.Proofs.Resolution.Survivor
import Wiring.Proofs.Resolution.Diagnostics
import Wiring.Proofs.Resolution.Collections
import Wiring.Proofs.Resolution.Confinement
import Wiring.Proofs.Resolution.Rank
import Wiring.Proofs.Resolution.Termination
import Wiring.Proofs.Resolution.Recursion
import Wiring.Proofs.Resolution.Refinement
import Wiring.Proofs.Resolution.Supplements
import Wiring.Proofs.Resolution.Groundness
import Wiring.Proofs.Resolution.Scans
import Wiring.Proofs.Resolution.Synthesis
import Wiring.Proofs.Resolution.Labels
import Wiring.Proofs.Resolution.Repetition
import Wiring.Proofs.Resolution.Specialization
import Wiring.Proofs.Resolution.Variables
import Wiring.Proofs.Resolution.Conservativity
import Wiring.Proofs.Resolution.Acceptance
import Wiring.Proofs.Resolution.Simulation
import Wiring.Proofs.Resolution.Renumbering
import Wiring.Proofs.Resolution.Padding
import Wiring.Proofs.Resolution.Irrelevance
import Wiring.Proofs.Manifest.Rounds
import Wiring.Proofs.Json.Reader
import Wiring.Proofs.Json.RoundTrip
import Wiring.Proofs.Value.Encoding
import Wiring.Proofs.Plan.RoundTrip
import Wiring.Proofs.Plan.Fingerprint
import Wiring.Proofs.Manifest.RoundTrip
