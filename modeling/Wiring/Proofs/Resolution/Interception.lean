import Wiring.Proofs.Resolution.Provenance
import Wiring.Proofs.Resolution.Proxies
/-!
# Interceptors of components

The interceptors of a component are started together with it, before it is worked on, unless they
are finished or in progress already; and what is in progress is finished in the end. So a component
that was started for itself finds all its interceptors in the plan (`State.Escorted.move`).

An interceptor that was started with a component that it applies to was not started for itself. Its
own interceptors are bound to it only if something else brings them into the plan
(`Resolver.interceptor_left_out`).

* `State.mem_interceptorsOf`: which components are bound to a component as its interceptors.
* `Resolver.interceptors_are_bound` says which declarations can rely on being among them.
-/

namespace Wiring

namespace State

open Resolver

variable {u : Universe} {r : Resolver} {c₀ : Catalog} {s t : State} {d x : Source} {n : Node}
  {i j id : Nat}

/-- **The interceptors of a component in a plan** are the other components whose type intercepts
its own, and whose tags it carries. A proxy has none. -/
theorem mem_interceptorsOf (hi : s.Identified u) (hn : s.resolved[j]? = some n) :
    i ∈ s.interceptorsOf j n ↔ n.source.isProxy = false ∧ i ≠ j ∧ ∃ m, s.resolved[i]? = some m ∧
      u.Intercepts m.source.type n.source.type ∧ n.source.tags.Includes m.source.tags := by
  have hl {k : Nat} {m : Node} (hm : s.resolved[k]? = some m) : m.source.Listed u :=
    (hi.declared m (List.mem_of_getElem? hm)).1
  unfold interceptorsOf
  split <;> rename_i hp
  · simp [hp]
  · rw [List.mem_filter, List.mem_range]
    simp only [Bool.and_eq_true, bne_iff_ne, Option.any_eq_true, decide_eq_true_eq]
    constructor
    · rintro ⟨-, hne, m, hm, hx, ht⟩
      exact ⟨by simpa using hp, hne, m, hm, ((hl hn).isInterceptedBy_iff (hl hm)).1 hx, ht⟩
    · rintro ⟨-, hne, m, hm, hx, ht⟩
      exact ⟨(List.getElem?_eq_some_iff.1 hm).1, hne, m, hm,
        ((hl hn).isInterceptedBy_iff (hl hm)).2 hx, ht⟩

/-! ## Interceptors are started with what they apply to -/

theorem upcoming_zero_iff : s.Upcoming 0 id ↔ id ∈ Frame.ids s.stack ∨ s.isResolved id = true := by
  rw [Upcoming, isResolved_iff]
  refine or_congr_right ⟨fun ⟨j, n, _, hn, e⟩ => ⟨n, List.mem_of_getElem? hn, e⟩, ?_⟩
  rintro ⟨n, hn, e⟩
  obtain ⟨j, hj⟩ := List.mem_iff_getElem?.1 hn
  exact ⟨j, n, Nat.zero_le _, hj, e⟩

/-- The interceptors of a component that the catalog `c₀` holds are finished or in progress. -/
def Escorted (c₀ : Catalog) (s : State) (d : Source) : Prop :=
  ∀ x ∈ c₀.interceptors, x.id ≠ d.id → d.isInterceptedBy x = true → s.Upcoming 0 x.id

/-- **A component is started with its interceptors.** -/
theorem escorted_push (hc : c₀.Extends s.catalog) (d : Source) : (s.push d).Escorted c₀ d := by
  intro x hx hne hd
  obtain ⟨hx, hi⟩ := List.mem_filter.1 hx
  rw [upcoming_zero_iff]
  by_cases hr : s.isResolved x.id = true
  · exact .inr hr
  · refine .inl ?_
    by_cases hp : x.id ∈ Frame.ids s.stack
    · exact mem_ids_push d hp
    · have hw : x ∈ s.wrapping d := by
        refine List.mem_filter.2 ⟨List.mem_filter.2 ⟨hc.sources.mem hx, hi⟩, ?_⟩
        simp [hne, hd, hr, ← isInProgress_iff] at hp ⊢
        exact hp
      rw [ids_push]
      exact List.mem_append_left _ (List.mem_reverse.2 (List.mem_map_of_mem hw))

/-- **A move keeps what is escorted so.** -/
theorem Escorted.move (h : s.Escorted c₀ d) (hm : r.Move s t) : t.Escorted c₀ d :=
  fun x hx hne hd => (h x hx hne hd).move (Nat.zero_le _) hm

/-- Components other than proxies and interceptors are escorted. -/
structure Guarded (c₀ : Catalog) (s : State) : Prop where
  /-- Those that are finished. -/
  finished : ∀ n ∈ s.resolved, n.source.isProxy = false → n.source.intercepted = none →
    s.Escorted c₀ n.source
  /-- Those in progress. -/
  inProgress : ∀ f, .component f ∈ s.stack → f.source.intercepted = none → s.Escorted c₀ f.source

theorem guarded_start (c : Catalog) : (start c).Guarded c₀ where
  finished := by simp [start]
  inProgress := by simp [start]

/-- **A move keeps components escorted.** -/
theorem Guarded.move (h : s.Guarded c₀) (hc : c₀.Extends s.catalog) (hm : r.Move s t) :
    t.Guarded c₀ where
  finished n hn hp hi := by
    rcases hm.mem_resolved hn with hn | ⟨f, hf, e, -⟩ | ⟨d, claimed, hsf⟩
    · exact (h.finished n hn hp hi).move hm
    · rw [← e] at hi ⊢
      exact (h.inProgress f hf hi).move hm
    · simp [hsf.isProxy] at hp
  inProgress f hf hi := by
    cases hm.arises hf with
    | kept hf => exact (h.inProgress f hf hi).move hm
    | answered hg hp he e | bypassed hg hp hk e =>
      subst e
      exact (h.inProgress _ hg hi).move hm
    | @started s' d x ht hs hx e =>
      subst ht e
      rcases hx with rfl | hw
      · exact escorted_push (hc.trans hs.catalog) x
      · -- What is started with a component is an interceptor.
        have hsome := (intercepts_of_mem_wrapping hw).1
        rw [show x.intercepted = none from hi] at hsome
        cases hsome

end State

namespace Resolver

variable {r : Resolver} {drafts : List Draft} {s : State} {c₀ : Catalog} {x : Source} {n : Node}

theorem Moves.guarded (hm : Moves r (.start c₀) s) : s.Guarded c₀ := by
  induction hm with
  | refl => exact State.guarded_start c₀
  | tail hm h ih => exact ih.move (Moves.grows hm).catalog h

/-- When the stack is empty, the interceptors of a component that is none itself are finished. -/
theorem isResolved_of_intercepts (hc : Declared r drafts c₀) (hm : Moves r (.start c₀) s)
    (hs : s.stack = []) (hx : x ∈ c₀.sources) (hn : n ∈ s.resolved)
    (hp : n.source.isProxy = false) (hi : r.types.intercepted? n.source.type = none)
    (hne : x.id ≠ n.source.id) (h : r.types.Intercepts x.type n.source.type) :
    s.isResolved x.id = true := by
  have hxl := hc.sound.listed x hx
  have hnl := ((hm.identified hc).declared n hn).1
  have hxi : x ∈ c₀.interceptors := by
    obtain ⟨target, ht, -⟩ := h
    exact List.mem_filter.2 ⟨hx, by rw [hxl.intercepted_eq, ht]; rfl⟩
  have hup := hm.guarded.finished n hn hp (hnl.intercepted_eq.trans hi) x hxi hne
    ((hnl.isInterceptedBy_iff hxl).2 h)
  rw [State.upcoming_zero_iff, hs] at hup
  exact hup.resolve_left (by simp)

/-- **Interceptors are bound to what they apply to**: a declaration among the drafts whose type
intercepts that of a component of the plan, and whose tags this component carries, is bound to it
as an interceptor, if the component is no interceptor itself. To interceptors those declarations
are bound that have a component in the plan. -/
theorem interceptors_are_bound (r : Resolver) (fuel : Nat) (drafts : List Draft) (round : Nat)
    (p : Plan) (h : r.resolve fuel drafts round = .ok (.resolved p)) :
    ∃ s, r.Completes fuel drafts round s ∧ p = s.toPlan round ∧
      ∀ (k : Nat) (d : Draft), drafts[k]? = some d → d.isTemplate = false →
        ∀ (j : Nat) (n : Node), s.resolved[j]? = some n → n.source.isProxy = false →
          n.source.id ≠ k → r.types.Intercepts (d.declare k).type n.source.type →
          n.source.tags.Includes d.tags →
          (r.types.intercepted? n.source.type = none ∨ s.isResolved k = true) →
          ∃ i m q, s.resolved[i]? = some m ∧ m.source.toDeclaration = d.declare k ∧
            p.components[i]? = some (s.componentAt i m) ∧ p.components[j]? = some q ∧
            q = s.componentAt j n ∧ i ∈ q.interceptors := by
  obtain ⟨s, hs, rfl⟩ := resolve_eq_resolved_iff.1 h
  obtain ⟨c₀, hc, hm⟩ := hs.reachable.moves
  have hi := hm.identified hc
  refine ⟨s, hs, rfl, fun k d hk hd j n hn hp hne hx ht hor => ?_⟩
  obtain ⟨x, hxs, e⟩ := hc.exists_source hk hd
  obtain rfl : x.id = k := congrArg Declaration.id e
  rw [← e] at hx
  have hres : s.isResolved x.id = true := by
    rcases hor with hor | hor
    · exact isResolved_of_intercepts hc hm hs.stack hxs (List.mem_of_getElem? hn) hp hor hne.symm hx
    · exact hor
  obtain ⟨m, hm', em⟩ := State.isResolved_iff.1 hres
  obtain ⟨i, hmi⟩ := List.mem_iff_getElem?.1 hm'
  obtain rfl : m.source = x :=
    hi.source_eq hm' (hm.grows.catalog.declares (Catalog.declares_of_mem hc.sound hxs)) em
  refine ⟨i, m, _, hmi, e, ?_, ?_, rfl, ?_⟩
  · rw [State.getElem?_toPlan, hmi, Option.map_some]
  · rw [State.getElem?_toPlan, hn, Option.map_some]
  · refine (State.mem_interceptorsOf hi hn).2 ⟨hp, ?_, m, hmi, hx, ?_⟩
    · rintro rfl
      rw [hn, Option.some.injEq] at hmi
      exact hne (congrArg (·.source.id) hmi)
    · rw [e]
      exact ht

/-! ## A service that is traced -/

/-- A tracer intercepts services, and a meter intercepts tracers. -/
def traced : Resolver where
  types.types := .ofList
    [("Service", { kind := .interface }), ("Users", { supertypes := [.named "Service" []] }),
     ("Tracer", { intercepts := some (.named "Service" []) }),
     ("Meter", { intercepts := some (.named "Tracer" []) })]

/-- A service, a tracer and a meter. -/
def tracedDrafts : List Draft :=
  [{ name := "users", type := .named "Users" [], isRoot := true },
   { name := "tracer", type := .named "Tracer" [] },
   { name := "meter", type := .named "Meter" [] }]

theorem interceptors_are_bound_traced : ∃ s p, traced.Completes 50 tracedDrafts 0 s ∧
    traced.resolve 50 tracedDrafts 0 = .ok (.resolved p) ∧
      ∃ i m q, s.resolved[i]? = some m ∧
        (∃ d, tracedDrafts[1]? = some d ∧ m.source.toDeclaration = d.declare 1) ∧
        p.components[1]? = some q ∧ i ∈ q.interceptors := by
  obtain ⟨s, hs, hP⟩ := exists_completes traced 50 tracedDrafts 0
    (fun s => s.resolved[1]?.any fun n => !n.source.isProxy && n.source.id != 1 &&
      n.source.type == .named "Users" []) (by decide +kernel)
  obtain ⟨n, hn, hP⟩ := (Option.any_eq_true _ _).1 hP
  simp only [Bool.and_eq_true, Bool.not_eq_true', bne_iff_ne, beq_iff_eq] at hP
  obtain ⟨⟨hp, hid⟩, ht⟩ := hP
  have hplan := resolve_eq_resolved_iff.2 ⟨s, hs, rfl⟩
  obtain ⟨s', hs', -, h⟩ := interceptors_are_bound traced 50 tracedDrafts 0 _ hplan
  obtain rfl := hs'.unique hs
  have hsuper : .named "Service" [] ∈ traced.types.supertypes (.named "Users" []) := by decide
  have hx : traced.types.Intercepts (.named "Tracer" []) n.source.type := by
    rw [ht]
    exact ⟨.named "Service" [], by decide, .step hsuper (.refl _)⟩
  obtain ⟨i, m, q, hm, e, -, hq, -, hmem⟩ := h 1 _ rfl (by decide) 1 n hn hp hid hx
    (by simp [Tags.Includes, EmptyCollection.emptyCollection]) (.inl (by rw [ht]; decide))
  exact ⟨s', _, hs, hplan, i, m, q, hm, ⟨_, rfl, e⟩, hq, hmem⟩

/-- The meter applies to the tracer, which was started with the service, and is left out. -/
theorem interceptor_left_out : ∃ p q d, traced.resolve 50 tracedDrafts 0 = .ok (.resolved p) ∧
    p.components[0]? = some q ∧ q.type = .named "Tracer" [] ∧ q.isProxy = false ∧
      tracedDrafts[2]? = some d ∧ d.isTemplate = false ∧ q.tags.Includes d.tags ∧
      traced.types.Intercepts (d.declare 2).type q.type ∧
      ∀ x ∈ p.components, x.type ≠ (d.declare 2).type := by
  obtain ⟨p, hp, hq⟩ := exists_plan (x := traced.resolve 50 tracedDrafts 0)
    (fun p => p.components.all (·.type != .named "Meter" []) && p.components[0]?.any fun q =>
      q.type == .named "Tracer" [] && !q.isProxy) (by decide +kernel)
  obtain ⟨hall, hq⟩ := Bool.and_eq_true_iff.1 hq
  obtain ⟨q, hq, h⟩ := (Option.any_eq_true _ _).1 hq
  simp only [Bool.and_eq_true, Bool.not_eq_true', beq_iff_eq] at h
  obtain ⟨ht, hpr⟩ := h
  refine ⟨p, q, _, hp, hq, ht, hpr, rfl, by decide, ?_, ?_, ?_⟩
  · simp [Tags.Includes, EmptyCollection.emptyCollection]
  · rw [ht]
    exact ⟨.named "Tracer" [], by decide, .refl _⟩
  · intro x hx
    exact bne_iff_ne.1 (List.all_eq_true.1 hall x hx)

end Resolver

end Wiring
