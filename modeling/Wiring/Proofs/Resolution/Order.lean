import Wiring.Proofs.Plan.Order
import Wiring.Proofs.Resolution.Growth
/-!
# Components are finished in an order in which they can be built

An edge is made for a component that is finished already: one found, one just built, or a proxy. So
in each state of a resolution the edges of a finished component point to positions before its own,
those of a component in progress to positions that are taken (`State.Ordered`). The plan is
`Plan.Ordered` in the end (`Resolver.ordered_of_resolve`).
-/

namespace Wiring

/-- Construction of the edge needs only components before the position. -/
def Edge.Below (n : Nat) (e : Edge) : Prop := ∀ t ∈ e.constructionTargets, t < n

/-- All edges point to finished components, those of finished components to earlier ones. -/
structure State.Ordered (s : State) : Prop where
  /-- The edges of a finished component point to earlier ones. -/
  finished : ∀ (i : Nat) (n : Node), s.resolved[i]? = some n → ∀ e ∈ n.edges, e.Below i
  /-- The edges of a component in progress point to finished ones. -/
  inProgress : ∀ f, .component f ∈ s.stack → ∀ e ∈ f.edges, e.Below s.resolved.length
  /-- Proxies are finished. -/
  proxies : ∀ x ∈ s.proxies, x.2 < s.resolved.length

namespace Edge

variable {e : Edge} {n m : Nat}

theorem Below.mono (h : e.Below n) (hn : n ≤ m) : e.Below m :=
  fun t ht => Nat.lt_of_lt_of_le (h t ht) hn

theorem below_single {c : Claim} {t : Target} : (single c t).Below n ↔ t.index < n := by
  simp [Below]

end Edge

namespace Resolver

variable {r : Resolver} {s t : State} {c : Claim} {e : Edge}

theorem Answers.below (h : Answers r s c e) : e.Below s.resolved.length := by
  -- A match is one of the finished components.
  have hm {m : Match} (hm : m ∈ s.resolvedMatches c) : m.position < s.resolved.length := by
    obtain ⟨n, hn, -⟩ := State.exists_of_mem_resolvedMatches hm
    exact (List.getElem?_eq_some_iff.1 hn).1
  cases h with
  | finished hk h => exact Edge.below_single.2 (hm h)
  | declared hk hd hi hf =>
    obtain ⟨n, hn, -⟩ := State.exists_of_position? hi
    exact Edge.below_single.2 (List.getElem?_eq_some_iff.1 hn).1
  | every hk ha =>
    intro t ht
    obtain ⟨x, hx, rfl⟩ := List.mem_map.1 ht
    obtain ⟨m, h, rfl⟩ := List.mem_map.1 hx
    exact hm h
  | absent | token => simp [Edge.Below, Edge.constructionTargets]

end Resolver

namespace State

open Resolver

variable {r : Resolver} {s t : State} {d : Source} {f w : ComponentFrame} {below : List Frame}
  {e : Edge} {es : List Edge}

theorem ordered_start (c : Catalog) : (start c).Ordered where
  finished := by simp [start]
  inProgress := by simp [start]
  proxies := by simp [start]

theorem Ordered.push (h : s.Ordered) (d : Source) : (s.push d).Ordered where
  finished := h.finished
  inProgress f hf e he := by
    rcases mem_push hf with hf | ⟨x, -, hx⟩
    · exact h.inProgress f hf e he
    · cases hx
      cases he
  proxies := h.proxies

/-- A component is finished whose edges point to finished ones. -/
theorem Ordered.commit (h : s.Ordered) (d : Source) (hes : ∀ e ∈ es, e.Below s.resolved.length) :
    (s.commit d es).Ordered where
  finished i n hn e he := by
    rcases getElem?_commit hn with hn | ⟨rfl, rfl⟩
    · exact h.finished i n hn e he
    · exact hes e he
  inProgress f hf e he := (h.inProgress f hf e he).mono (by simp [State.commit])
  proxies x hx := Nat.lt_of_lt_of_le (h.proxies x hx) (by simp [State.commit])

theorem Ordered.tail {frame : Frame} (h : s.Ordered) (hs : s.stack = frame :: below) :
    { s with stack := below }.Ordered where
  finished := h.finished
  inProgress f hf := h.inProgress f (hs ▸ List.mem_cons_of_mem _ hf)
  proxies := h.proxies

/-- An edge to a finished component is added to the frame on top. -/
theorem Ordered.answer (h : s.Ordered) (hs : s.stack = .component f :: below)
    (he : e.Below s.resolved.length) :
    { s with stack := .component (f.answer e) :: below }.Ordered where
  finished := h.finished
  inProgress g hg x hx := by
    rcases List.mem_cons.1 hg with hg | hg
    · cases hg
      rcases List.mem_append.1 hx with hx | hx
      · exact h.inProgress f (by simp [hs]) x hx
      · rwa [List.mem_singleton.1 hx]
    · exact h.inProgress g (by simp [hs, hg]) x hx
  proxies := h.proxies

/-- More declarations do not matter. -/
theorem Ordered.withCatalog (h : s.Ordered) (catalog : Catalog) : { s with catalog }.Ordered :=
  ⟨h.finished, h.inProgress, h.proxies⟩

theorem Ordered.forwarded {proxy : Source} {claimed : TypeExpr} (h : s.Ordered) :
    (s.forwarded s.catalog proxy d claimed).Ordered := by
  have hc : (s.commit proxy [.proxyParameter d.forwardingClaim d.id none]).Ordered :=
    h.commit proxy (by simp [Edge.Below, Edge.constructionTargets])
  refine ⟨hc.finished, hc.inProgress, fun x hx => ?_⟩
  rcases List.mem_cons.1 hx with rfl | hx
  · simp [State.forwarded, State.commit]
  · exact hc.proxies x hx

/-- **A move keeps a state ordered.** -/
theorem Ordered.move (h : s.Ordered) (hm : r.Move s t) : t.Ordered := by
  cases hm with
  | skip hs hd => exact h.tail hs
  | expand hs hd => exact (h.tail hs).push _
  | forward hs hw hf hk ht hp hr => exact (h.withCatalog _).forwarded
  | @bypass f w below c cs i hs hw hf hk ht hp =>
    have hi : (Edge.single c ⟨i, false⟩).Below s.resolved.length :=
      Edge.below_single.2 (h.proxies _ (mem_of_lookup hp))
    exact (h.tail hs).answer rfl hi
  | @commit f below hs hb hf => exact (h.tail hs).commit f.source (h.inProgress f (by simp [hs]))
  | answer hs hb hf he => exact h.answer hs he.below
  | await hs hb hf hd => exact h.push _
  | supply hs hb hf hn hd hr => exact (h.withCatalog _).push _
  | extend hr => exact h.withCatalog _
  | nest depth => exact ⟨h.finished, h.inProgress, h.proxies⟩

/-- The plan of an ordered state is ordered. -/
theorem Ordered.toPlan (h : s.Ordered) (round : Nat) : (s.toPlan round).Ordered where
  index i c hc := by
    obtain ⟨n, -, rfl⟩ := exists_of_toPlan hc
    rfl
  descending c hc e he t ht := by
    obtain ⟨i, hc⟩ := List.mem_iff_getElem?.1 hc
    obtain ⟨n, hn, rfl⟩ := exists_of_toPlan hc
    obtain ⟨x, hx, rfl⟩ := List.mem_map.1 he
    rw [constructionTargets_bindProxy] at ht
    exact h.finished i n hn x hx t ht
  interceptors c hc i hi := by
    obtain ⟨j, hc⟩ := List.mem_iff_getElem?.1 hc
    obtain ⟨n, hn, rfl⟩ := exists_of_toPlan hc
    rw [size_toPlan]
    simp only [componentAt, interceptorsOf] at hi
    split at hi
    · cases hi
    · exact List.mem_range.1 (List.mem_of_mem_filter hi)

end State

namespace Resolver

theorem Moves.ordered {r : Resolver} {c : Catalog} {s : State} (hm : Moves r (.start c) s) :
    s.Ordered :=
  hm.invariant (fun _ _ => State.Ordered.move) (State.ordered_start c)

/-- **The plan of a round can be built in its order.** Components stand at their indices and need
only earlier ones, so the graph of the plan has no links against the order and no cycles. -/
theorem ordered_of_resolve (r : Resolver) (fuel : Nat) (drafts : List Draft) (round : Nat)
    (p : Plan) (h : r.resolve fuel drafts round = .ok (.resolved p)) :
    p.Ordered ∧ (PlanGraph.ofPlan p).violations = [] ∧
      (PlanGraph.ofPlan p).detectCycles = .ok () := by
  obtain ⟨s, hs, rfl⟩ := resolve_eq_resolved_iff.1 h
  obtain ⟨c, -, hm⟩ := hs.reachable.moves
  have ho := hm.ordered.toPlan round
  have hg := PlanGraph.descending_ofPlan ho
  exact ⟨ho, hg.violations, hg.detectCycles⟩

theorem ordered_of_resolve_ring : ∃ p, ring.resolve 50 ringDrafts 0 = .ok (.resolved p) ∧
    p.size = 4 ∧ p.Ordered ∧ (PlanGraph.ofPlan p).violations = [] ∧
      (PlanGraph.ofPlan p).detectCycles = .ok () := by
  obtain ⟨p, hp, hsize⟩ := exists_plan (x := ring.resolve 50 ringDrafts 0) (·.size == 4)
    (by decide +kernel)
  exact ⟨p, hp, by simpa using hsize, ordered_of_resolve ring 50 ringDrafts 0 p hp⟩

end Resolver

end Wiring
