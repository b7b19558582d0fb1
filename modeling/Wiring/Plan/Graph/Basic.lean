import Wiring.Plan.Basic
/-!
# The graph of a plan

A `PlanGraph` has a node for each component of a plan, numbered by its place, and a link from a
component to each component that must be built before it. Deferred proxy parameters give no link,
so the graph of a plan that can be executed has no cycle. Each node carries its component's index,
and queries answer with these.

* `PlanGraph.directDeps` are the dependencies of a component in the order of its claims.
* `PlanGraph.transitiveDeps` are all components that it needs.
* `PlanGraph.dependents` are the components that need it.
-/

namespace Wiring

/-- A link from a node to one that must be built before it. -/
structure Link where
  /-- The node that needs the other. -/
  source : Nat
  /-- The node that is needed. -/
  target : Nat
  /-- The claim behind the link. -/
  label : String
deriving DecidableEq, Repr, Inhabited

/-- The components of a plan with the order that their construction must respect. -/
structure PlanGraph where
  /-- What is shown for each node. -/
  labels : List String
  /-- The component index of each node. -/
  weights : List Nat
  /-- The links, oldest first; no two join the same nodes in the same direction. -/
  links : List Link
deriving DecidableEq, Repr, Inhabited

namespace PlanGraph

/-- Adds a link, unless it leaves the graph or joins nodes that are joined already. -/
def addLink (size : Nat) (links : List Link) (l : Link) : List Link :=
  if l.source < size ∧ l.target < size ∧
      ¬ links.any fun k => k.source == l.source && k.target == l.target then
    links ++ [l]
  else links

/-- Every link that a component asks for, in the order of its edges. -/
def linksOf (c : Component) : List Link :=
  c.dependencies.flatMap fun e =>
    e.constructionTargets.map fun t => ⟨c.index, t, e.claim.render⟩

/-- The graph of a plan. -/
def ofPlan (p : Plan) : PlanGraph where
  labels := p.components.map fun c => c.name ++ ": " ++ c.type.render
  weights := p.components.map Component.index
  links := (p.components.flatMap linksOf).foldl (addLink p.size) []

/-- The number of nodes. -/
def size (g : PlanGraph) : Nat := g.weights.length

/-- The component index of a node. -/
def weight (g : PlanGraph) (v : Nat) : Nat := (g.weights[v]?).getD v

/-- What is shown for a component index. -/
def label (g : PlanGraph) (index : Nat) : String := (g.labels[index]?).getD ""

/-- The links from a node, oldest first. -/
def linksFrom (g : PlanGraph) (v : Nat) : List Link := g.links.filter (·.source == v)

/-- The links from an index to the same or a later one, as pairs of indices. -/
def violations (g : PlanGraph) : List (Nat × Nat) :=
  (g.links.map fun l => (g.weight l.source, g.weight l.target)).filter fun e => e.1 ≤ e.2

/-- The dependencies of a component, each once, in the order of its claims. -/
def directDeps (g : PlanGraph) (v : Nat) : List Nat :=
  (g.linksFrom v).map fun l => g.weight l.target

/-- The components that need a component, ascending. -/
def dependents (g : PlanGraph) (v : Nat) : List Nat :=
  ((g.links.filter (·.target == v)).map fun l => g.weight l.source).mergeSort

/-- The direct dependencies that are still unseen. -/
def unseenDeps (g : PlanGraph) (unseen : List Nat) (v : Nat) : List Nat :=
  (g.directDeps v).eraseDups.filter (· ∈ unseen)

theorem mem_of_mem_unseenDeps {g : PlanGraph} {unseen : List Nat} {v x : Nat}
    (h : x ∈ g.unseenDeps unseen v) : x ∈ unseen := by
  simpa using (List.mem_filter.1 h).2

theorem length_removeAll_lt {unseen found : List Nat} {x : Nat} (hu : x ∈ unseen)
    (hf : x ∈ found) : (unseen.removeAll found).length < unseen.length :=
  List.length_filter_lt_length_iff_exists.2 ⟨x, hu, by simpa using hf⟩

theorem length_erase_lt {unseen : List Nat} {x : Nat} (h : x ∈ unseen) :
    (unseen.erase x).length < unseen.length := by
  have := List.length_pos_of_mem h
  rw [List.length_erase_of_mem h]
  omega

/-- All that the queue and its dependencies lead to among the indices that are still `unseen`. -/
def reachable (g : PlanGraph) (unseen : List Nat) : List Nat → List Nat
  | [] => []
  | v :: queue =>
    g.unseenDeps unseen v ++
      g.reachable (unseen.removeAll (g.unseenDeps unseen v)) (queue ++ g.unseenDeps unseen v)
termination_by queue => (unseen.length, queue.length)
decreasing_by
  cases hf : g.unseenDeps unseen v with
  | nil =>
    rw [show unseen.removeAll [] = unseen by simp [List.removeAll]]
    exact Prod.Lex.right _ (by simp)
  | cons x found =>
    have hx : x ∈ g.unseenDeps unseen v := by simp [hf]
    exact Prod.Lex.left _ _ (length_removeAll_lt (mem_of_mem_unseenDeps hx) (by simp))

/-- All that a component needs, directly or through others, ascending. -/
def transitiveDeps (g : PlanGraph) (v : Nat) : List Nat :=
  (g.reachable g.weights.eraseDups [v]).mergeSort

end PlanGraph

end Wiring
