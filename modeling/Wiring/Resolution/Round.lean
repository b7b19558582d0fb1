import Wiring.Resolution.Run
/-!
# One round of a resolution

`Resolver.resolve` declares the drafts, runs the stack for the roots, and writes the plan: each
finished component with its edges, the positions of the interceptors that apply to it, and, for a
proxy, the position of the component it stands for.
-/

namespace Wiring

namespace State

/-- The positions of the interceptors that apply to a finished component. -/
def interceptorsOf (s : State) (position : Nat) (n : Node) : List Nat :=
  if n.source.isProxy then []
  else
    (List.range s.resolved.length).filter fun i =>
      i != position && (s.resolved[i]?).any fun m =>
        n.source.isInterceptedBy m.source && decide (n.source.tags.Includes m.source.tags)

/-- The edge with the position of the component that a proxy stands for. -/
def bindProxy (s : State) : Edge → Edge
  | .proxyParameter c d _ => .proxyParameter c d (s.position? d)
  | e => e

/-- A finished component as it stands in the plan. -/
def componentAt (s : State) (position : Nat) (n : Node) : Component where
  index := position
  name := n.source.name
  origin := n.source.origin
  type := n.source.type
  tags := n.source.tags
  isRoot := n.source.isRoot
  dependencies := n.edges.map s.bindProxy
  interceptors := s.interceptorsOf position n

/-- The plan of a finished resolution. -/
def toPlan (s : State) (round : Nat) : Plan where
  components := s.resolved.mapIdx s.componentAt
  rounds := round + 1

end State

namespace Resolver

/-- Declares drafts one after the other, and rejects those that cannot be declared. -/
def declareAll (r : Resolver) (fuel : Nat) (c : Catalog) : List Draft → Except Interrupt Catalog
  | [] => .ok c
  | d :: ds => do
    checked d.validate
    let (_, c) ← budgeted (c.register? r.types fuel d)
    declareAll r fuel c ds

/-- Resolves the roots among the drafts in one round, whose number counts from zero. -/
def resolve (r : Resolver) (fuel : Nat) (drafts : List Draft) (round : Nat) :
    Except Interrupt Resolution := do
  let catalog ← r.declareAll fuel ∅ drafts
  if catalog.roots.isEmpty then throw (.failure .noRoots)
  match ← r.run round fuel none (.start catalog) with
  | .finished s | .satisfied s => return .resolved (s.toPlan round)
  | .restart request => return .restart request

/-- Resolves the roots among the drafts in a single round. -/
def resolveOnce (r : Resolver) (fuel : Nat) (drafts : List Draft) : Except Interrupt Plan := do
  checked (← r.resolve fuel drafts 0).plan

end Resolver

end Wiring
