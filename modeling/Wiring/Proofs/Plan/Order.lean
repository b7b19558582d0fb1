import Wiring.Proofs.Plan.Cycles
/-!
# Plans whose components need only earlier ones

In a plan that is `Plan.Ordered`, each component stands at its index and needs only what stands
before it. All links of its graph then descend (`PlanGraph.descending_ofPlan`), so none of them
violates the order (`PlanGraph.Descending.violations`), and whoever follows links comes to smaller
and smaller nodes and never back (`PlanGraph.Descending.detectCycles`).
-/

namespace Wiring

open Relation (TransGen)

/-- The components stand at their indices, and need only what stands before them. -/
structure Plan.Ordered (p : Plan) : Prop where
  /-- A component's index is its position. -/
  index : ∀ (i : Nat) (c : Component), p.components[i]? = some c → c.index = i
  /-- What must be built before a component has a smaller index. -/
  descending : ∀ c ∈ p.components, ∀ e ∈ c.dependencies, ∀ t ∈ e.constructionTargets, t < c.index
  /-- Interceptors are components of the plan. -/
  interceptors : ∀ c ∈ p.components, ∀ i ∈ c.interceptors, i < p.size

namespace PlanGraph

variable {g : PlanGraph} {p : Plan} {v w : Nat}

/-- Nodes are numbered by the indices of their components, and each link leads to a smaller one. -/
structure Descending (g : PlanGraph) : Prop where
  /-- The component of a node has the node's number for its index. -/
  weights : g.weights = List.range g.size
  /-- Links lead to smaller nodes. -/
  links : ∀ l ∈ g.links, l.target < l.source ∧ l.source < g.size

/-- **The links of an ordered plan descend.** -/
theorem descending_ofPlan (h : p.Ordered) : (ofPlan p).Descending where
  weights := (regular_ofPlan h.index).weights
  links l hl := by
    have hneeds : p.Needs l.source l.target := (joins_ofPlan_iff h.index).1 ⟨l, hl, rfl, rfl⟩
    refine ⟨?_, ((regular_ofPlan h.index).links l hl).1⟩
    obtain ⟨-, c, hc, e, he, ht⟩ := hneeds
    rw [← h.index l.source c hc]
    exact h.descending c (List.mem_of_getElem? hc) e he l.target ht

theorem Descending.regular (h : g.Descending) : g.Regular where
  weights := h.weights
  links l hl := by
    obtain ⟨hlt, hs⟩ := h.links l hl
    exact ⟨hs, Nat.lt_trans hlt hs⟩

/-- If links descend, none violates the order. -/
theorem Descending.violations (h : g.Descending) : g.violations = [] := by
  refine List.filter_eq_nil_iff.2 fun e he => ?_
  obtain ⟨l, hl, rfl⟩ := List.mem_map.1 he
  rw [h.regular.weight, h.regular.weight]
  simpa using (h.links l hl).1

/-- Descending links lead only to smaller nodes. -/
theorem Descending.lt_of_transGen (h : g.Descending) (hvw : TransGen g.Joins v w) : w < v := by
  induction hvw with
  | single hvw =>
    obtain ⟨l, hl, rfl, rfl⟩ := hvw
    exact (h.links l hl).1
  | tail _ hxy ih =>
    obtain ⟨l, hl, rfl, rfl⟩ := hxy
    exact Nat.lt_trans (h.links l hl).1 ih

/-- If links descend, there are no cycles. -/
theorem Descending.detectCycles (h : g.Descending) : g.detectCycles = .ok () :=
  h.regular.detectCycles_eq_ok_iff.2 fun v hv => Nat.lt_irrefl v (h.lt_of_transGen hv)

end PlanGraph

end Wiring
