import Wiring.Error
import Wiring.Plan.Graph.Basic
/-!
# Cycles and construction order

Both walks go depth first over the links of a `PlanGraph` and keep their own stack.

* `PlanGraph.detectCycles` fails on the first cycle it meets, naming the components on it and the
  claim that closes it.
* `PlanGraph.topologicalOrder` lists every component after all those it needs, if there is no
  cycle.
-/

namespace Wiring.PlanGraph

/-- A node on the path that is being walked, with its links that are still to be followed. -/
structure Visit where
  /-- The node. -/
  node : Nat
  /-- The links still to be followed. -/
  pending : List Link
deriving DecidableEq, Inhabited

/-- The beginning of a visit: newer links are followed first. -/
def Visit.start (g : PlanGraph) (v : Nat) : Visit := ⟨v, (g.linksFrom v).reverse⟩

/-- How many steps a path takes if no other node is visited. -/
def pathSize : List Visit → Nat
  | [] => 0
  | v :: path => v.pending.length + 1 + pathSize path

/-- A closed walk along the links. -/
structure Cycle where
  /-- The nodes in the order of the walk; the first is repeated at the end. -/
  nodes : List Nat
  /-- The claim behind the last link. -/
  claim : String
deriving DecidableEq, Repr

/-- The part of the path from the node `v` to the top, closed by a link to `v`. -/
def closeCycle (path : List Visit) (l : Link) : Cycle where
  nodes := ((path.map Visit.node).reverse.dropWhile (· != l.target)) ++ [l.target]
  claim := l.label

/-- Walks the path (its end first) to the end. Gives the nodes that are still unvisited, or the
first cycle met: a link that leads back to the path. -/
def walk (g : PlanGraph) (unvisited : List Nat) : List Visit → Except Cycle (List Nat)
  | [] => .ok unvisited
  | ⟨_, []⟩ :: below => g.walk unvisited below
  | ⟨v, l :: ls⟩ :: below =>
    if l.target ∈ unvisited then
      g.walk (unvisited.erase l.target) (.start g l.target :: ⟨v, ls⟩ :: below)
    else if v = l.target ∨ (below.map Visit.node).contains l.target then
      .error (closeCycle (⟨v, ls⟩ :: below) l)
    else g.walk unvisited (⟨v, ls⟩ :: below)
termination_by path => (unvisited.length, pathSize path)
decreasing_by
  · exact Prod.Lex.right _ (by simp [pathSize])
  · exact Prod.Lex.left _ _ (length_erase_lt ‹_›)
  · exact Prod.Lex.right _ (by simp [pathSize])

/-- Walks from each of the roots that is still unvisited. -/
def walkAll (g : PlanGraph) (unvisited : List Nat) : List Nat → Except Cycle Unit
  | [] => .ok ()
  | v :: roots =>
    if v ∈ unvisited then do
      g.walkAll (← g.walk (unvisited.erase v) [.start g v]) roots
    else g.walkAll unvisited roots

/-- The error that names the components on a cycle. -/
def Cycle.toError (g : PlanGraph) (c : Cycle) : Error :=
  .circular c.claim (c.nodes.map fun v => g.label (g.weight v))

/-- Fails on the first cycle. -/
def detectCycles (g : PlanGraph) : Except Error Unit :=
  match g.walkAll (List.range g.size) (List.range g.size) with
  | .ok () => .ok ()
  | .error c => .error (c.toError g)

/-- Finishes the nodes on the stack, each after those its links lead to. A node is first entered,
which puts its unvisited targets above it, and then finished unless that was done already. -/
def finish (g : PlanGraph) (unvisited finished : List Nat) : List Nat → List Nat × List Nat
  | [] => (unvisited, finished)
  | v :: stack =>
    if v ∈ unvisited then
      let rest := unvisited.erase v
      g.finish rest finished
        (((g.linksFrom v).map Link.target).filter (· ∈ rest) ++ v :: stack)
    else if v ∈ finished then g.finish unvisited finished stack
    else g.finish unvisited (finished ++ [v]) stack
termination_by stack => (unvisited.length, stack.length)
decreasing_by
  · exact Prod.Lex.left _ _ (length_erase_lt ‹_›)
  · exact Prod.Lex.right _ (by simp)
  · exact Prod.Lex.right _ (by simp)

/-- The nodes in the order in which they are finished. -/
def finishOrder (g : PlanGraph) : List Nat :=
  ((List.range g.size).foldl
    (fun (unvisited, finished) v =>
      if v ∈ unvisited then g.finish unvisited finished [v] else (unvisited, finished))
    (List.range g.size, [])).2

/-- The component indices, each after those of the components it needs. -/
def topologicalOrder (g : PlanGraph) : Except Error (List Nat) := do
  g.detectCycles
  return g.finishOrder.map g.weight

end Wiring.PlanGraph
