import Wiring.Proofs.Resolution.Cycles
import Wiring.Proofs.Resolution.Provenance
import Wiring.Proofs.Universe.Table
/-!
# Declarations that depend on each other in no cycle

A declaration depends on what satisfies its claims and on its interceptors. If no declaration
depends on itself in this way, then one expects that no cycle is ever closed. But a component stands
above another on the stack not only because the other needs it. The interceptors of a component are
put there together, those declared later above those declared before, and an interceptor that
depends on one below it finds it in progress (`Resolver.circular_of_interceptors`).

* `Draft.Above`: why a component stands above another. `State.Straight.move` shows that these are
  all the reasons if nothing is declared on the fly.
* `Resolver.no_cycle_of_acyclic`: there is no cycle if, moreover, no interceptor depends on one that
  is declared before it for the same declaration.
-/

namespace Wiring

/-! ## Dependencies of drafts -/

namespace Draft

variable {u : Universe} {drafts : List Draft} {i j k a b : Nat}

/-- The type of the `j`-th draft intercepts that of the `i`-th. -/
def InterceptedBy (u : Universe) (drafts : List Draft) (i j : Nat) : Prop :=
  ∃ d e, drafts[i]? = some d ∧ drafts[j]? = some e ∧
    u.Intercepts (e.declare j).type (d.declare i).type

/-- The `i`-th draft depends on the `j`-th. -/
inductive DependsOn (u : Universe) (drafts : List Draft) (i j : Nat) : Prop
  /-- It has a claim on one instance or on all, which the other satisfies. -/
  | claimed {d e : Draft} {c : Claim} (hd : drafts[i]? = some d) (he : drafts[j]? = some e)
      (hc : c ∈ (d.declare i).claims) (hk : c.kind ≠ .typeRef)
      (hs : (e.declare j).Satisfies u c) : DependsOn u drafts i j
  /-- The other is an interceptor for it. -/
  | intercepted (h : InterceptedBy u drafts i j) : DependsOn u drafts i j

/-- No draft depends on itself, directly or through others. -/
def Acyclic (u : Universe) (drafts : List Draft) : Prop :=
  ∀ i, ¬ Relation.TransGen (DependsOn u drafts) i i

/-- No interceptor depends on one that is declared before it for the same draft. -/
def InterceptorsInOrder (u : Universe) (drafts : List Draft) : Prop :=
  ∀ k i j, InterceptedBy u drafts k i → InterceptedBy u drafts k j → i < j →
    ¬ Relation.TransGen (DependsOn u drafts) j i

/-- Why the component of the draft `a` stands above that of `b` on the stack. -/
inductive Above (u : Universe) (drafts : List Draft) (a b : Nat) : Prop
  /-- The lower one depends on it. -/
  | needed (h : Relation.TransGen (DependsOn u drafts) b a) : Above u drafts a b
  /-- The lower one waits next to an interceptor that is declared later, which is or depends on the
  upper one. -/
  | beside {k j : Nat} (hb : InterceptedBy u drafts k b) (hj : InterceptedBy u drafts k j)
      (hlt : b < j) (h : Relation.ReflTransGen (DependsOn u drafts) j a) : Above u drafts a b

/-- If each dependency leads to a higher rank, then so does each chain of them. -/
theorem DependsOn.lt_of_transGen {rank : Nat → Nat}
    (h : ∀ i j, DependsOn u drafts i j → rank i < rank j)
    (hij : Relation.TransGen (DependsOn u drafts) i j) : rank i < rank j := by
  induction hij with
  | single hij => exact h _ _ hij
  | tail _ hij ih => exact ih.trans (h _ _ hij)

/-- What the upper component depends on stands above the lower one, too. -/
theorem Above.tail (h : Above u drafts a b) (hd : DependsOn u drafts a k) :
    Above u drafts k b := by
  cases h with
  | needed h => exact .needed (h.tail hd)
  | beside hb hj hlt h => exact .beside hb hj hlt (h.tail hd)

/-- **No component stands above itself.** -/
theorem Above.ne (h : Above u drafts a b) (ha : Acyclic u drafts)
    (ho : InterceptorsInOrder u drafts) : a ≠ b := by
  rintro rfl
  cases h with
  | needed h => exact ha a h
  | @beside k j hb hj hlt h =>
    rcases Relation.reflTransGen_iff_eq_or_transGen.1 h with rfl | h
    · exact Nat.lt_irrefl _ hlt
    · exact ho k a j hb hj hlt h

end Draft

/-- The components in progress below are below for one of these reasons. -/
def Frame.Above (u : Universe) (drafts : List Draft) : Frame → List Frame → Prop
  | .root _, _ => True
  | .component f, below => ∀ id ∈ ids below, Draft.Above u drafts f.source.id id

/-! ## Nothing is declared on the fly -/

namespace Resolver

/-- The drafts are all that is ever declared. -/
structure Static (r : Resolver) (drafts : List Draft) : Prop where
  /-- No extension is asked. -/
  extensions : r.extensions = []
  /-- No final type is declared by its constructor. -/
  constructors : ∀ t, r.types.autoConstructor? t = none
  /-- No optional type is wrapped around its inner instance. -/
  wrappers : ∀ t, r.types.optionalInner? t = none
  /-- There are no templates. -/
  templates : ∀ d ∈ drafts, d.isTemplate = false

variable {r : Resolver} {drafts : List Draft} {c : Catalog} {x y : Source} {cl : Claim}
  {s : State} {draft : Draft}

theorem Declared.mem_sources (h : Declared r drafts c) (hs : r.Static drafts)
    (hx : c.Declares r.types x) : x ∈ c.sources := by
  obtain ⟨hl, hm⟩ := hx
  rw [Catalog.declarations, h.templates_eq_nil hs.templates, List.append_nil] at hm
  obtain ⟨y, hy, e⟩ := List.mem_map.1 hm
  rwa [hl.ext (h.sound.listed y hy) e.symm]

/-- Sources are in the order of their identities. -/
theorem Declared.sorted (h : Declared r drafts c) : c.sources.Pairwise (·.id < ·.id) := by
  have hd : (Draft.declareEach drafts).Pairwise (·.id < ·.id) := by
    refine List.pairwise_iff_getElem.2 fun i j hi hj hij => ?_
    simpa [Draft.declareEach, Draft.declare] using hij
  have hs : (c.sources.map Source.toDeclaration).Pairwise (·.id < ·.id) := by
    rw [h.sources]
    exact hd.filter _
  rwa [List.pairwise_map] at hs

theorem Declared.dependsOn_of_fits (h : Declared r drafts c) (hx : x ∈ c.sources)
    (hy : y ∈ c.sources) (hc : cl ∈ x.claims) (hk : cl.kind ≠ .typeRef) (hf : y.Fits cl) :
    Draft.DependsOn r.types drafts x.id y.id := by
  have hs := (h.sound.listed y hy).fits_iff.1 hf
  obtain ⟨i, d, hd, ex⟩ := h.exists_draft hx
  obtain ⟨j, e, he, ey⟩ := h.exists_draft hy
  rw [ex] at hc ⊢
  rw [ey] at hs ⊢
  exact .claimed hd he hc hk hs

theorem Declared.interceptedBy (h : Declared r drafts c) (hx : x ∈ c.sources)
    (hy : y ∈ c.sources) (hi : x.isInterceptedBy y = true) :
    Draft.InterceptedBy r.types drafts x.id y.id := by
  have hs := ((h.sound.listed x hx).isInterceptedBy_iff (h.sound.listed y hy)).1 hi
  obtain ⟨i, d, hd, ex⟩ := h.exists_draft hx
  obtain ⟨j, e, he, ey⟩ := h.exists_draft hy
  rw [ex, ey] at hs ⊢
  exact ⟨d, e, hd, he, hs⟩

theorem Supplies.exists_template (h : Supplies r s cl draft) (hs : r.Static drafts) :
    s.catalog.templates ≠ [] := by
  cases h with
  | specialized ht => exact List.ne_nil_of_mem ht
  | wrapper h => simp [hs.wrappers] at h
  | final h => simp [hs.constructors] at h

end Resolver

/-! ## The reasons for what is on the stack -/

namespace State

open Resolver

variable {r : Resolver} {drafts : List Draft} {c₀ : Catalog} {s t : State} {d x : Source}

/-- Nothing was declared, and components in progress stand above others for the reasons listed. -/
structure Straight (r : Resolver) (drafts : List Draft) (c₀ : Catalog) (s : State) : Prop where
  /-- The declarations are those from the start. -/
  catalog : s.catalog = c₀
  /-- There is a reason for each component on the stack. -/
  above : Frame.Each (Frame.Above r.types drafts) s.stack

theorem straight_start (c₀ : Catalog) : (start c₀).Straight r drafts c₀ where
  catalog := rfl
  above := Frame.each_roots fun _ _ _ _ => trivial

theorem Straight.tail {frame : Frame} {below : List Frame} (h : s.Straight r drafts c₀)
    (hs : s.stack = frame :: below) : { s with stack := below }.Straight r drafts c₀ := by
  have ha := h.above
  rw [hs] at ha
  exact ⟨h.catalog, ha.2⟩

/-- **A component is started with its interceptors for one of the reasons listed.** -/
theorem Straight.push (h : s.Straight r drafts c₀) (hc : Declared r drafts c₀)
    (hd : d ∈ c₀.sources) (ha : ∀ id ∈ Frame.ids s.stack, Draft.Above r.types drafts d.id id) :
    (s.push d).Straight r drafts c₀ where
  catalog := h.catalog
  above := by
    rw [stack_push]
    refine h.above.started fun as x bs e => ?_
    cases as with
    | nil =>
      obtain ⟨rfl, -⟩ := List.cons.inj e
      exact ha
    | cons a as =>
      obtain ⟨rfl, hw⟩ : d = a ∧ s.wrapping d = as ++ x :: bs := List.cons.inj e
      have hint {y : Source} (hy : y ∈ s.wrapping d) :
          Draft.InterceptedBy r.types drafts d.id y.id :=
        hc.interceptedBy hd (h.catalog ▸ (mem_wrapping hy).1) (intercepts_of_mem_wrapping hy).2
      have hx := hint (y := x) (by simp [hw])
      intro id hid
      rw [Frame.ids_append, Frame.ids_started, List.map_cons, List.reverse_cons] at hid
      simp only [List.mem_append, List.mem_reverse, List.mem_map, List.mem_singleton] at hid
      rcases hid with (⟨y, hy, rfl⟩ | rfl) | hid
      · -- Interceptors are put on the stack in the order in which they are declared.
        have hsorted : (s.wrapping d).Pairwise (·.id < ·.id) := by
          refine List.Pairwise.filter _ (List.Pairwise.filter _ ?_)
          rw [h.catalog]
          exact hc.sorted
        rw [hw, List.pairwise_append] at hsorted
        exact .beside (hint (by simp [hw, hy])) hx (hsorted.2.2 y hy x (by simp)) .refl
      · exact .needed (.single (.intercepted hx))
      · exact (ha id hid).tail (.intercepted hx)

/-- **A move puts components on the stack only for the reasons listed**, and breaks no cycle. -/
theorem Straight.move (h : s.Straight r drafts c₀) (hs : r.Static drafts)
    (hc : Declared r drafts c₀) (hacyc : Draft.Acyclic r.types drafts)
    (hord : Draft.InterceptorsInOrder r.types drafts) (hi : s.Identified r.types)
    (ht : s.Tallied) (hm : r.Move s t) : t.Straight r drafts c₀ := by
  have ha := h.above
  have htemplates : s.catalog.templates = [] := h.catalog ▸ hc.templates_eq_nil hs.templates
  cases hm with
  | skip hst hd => exact h.tail hst
  | @expand d below hst hd =>
    cases hi.top hst with
    | root hds hb => exact (h.tail hst).push hc (h.catalog ▸ hds) (by simp [hb])
  | forward hst hw hf | bypass hst hw hf =>
    rw [hst] at ha
    exact absurd rfl ((ha.1 _ hf).ne hacyc hord)
  | commit hst hb hf => exact ⟨h.catalog, (h.tail hst).above⟩
  | answer hst hb hf he =>
    rw [hst] at ha
    exact ⟨h.catalog, ha.1, ha.2⟩
  | @await f below c cs d hst hb hf hd =>
    have hfs : .component f ∈ s.stack := by simp [hst]
    obtain ⟨hds, -, hfit⟩ := mem_sources_of_mem_declaredMatches hd.declared
    rw [h.catalog] at hds
    have hclaim : c ∈ f.source.claims := by
      rw [← ht.inProgress f hfs, hf]
      simp
    have hk : c.kind ≠ .typeRef := by
      intro e
      simpa [e, ClaimKind.isSingle, ClaimKind.isAll] using hd.wanted
    have hdep : Draft.DependsOn r.types drafts f.source.id d.id :=
      hc.dependsOn_of_fits (hc.mem_sources hs (h.catalog ▸ hi.declares hfs)) hds hclaim hk hfit
    refine h.push hc hds fun id hid => ?_
    rw [hst] at hid ha
    rcases List.mem_cons.1 hid with rfl | hid
    · exact .needed (.single hdep)
    · exact (ha.1 id hid).tail hdep
  | supply hst hb hf hn hd hr => exact absurd htemplates (hd.exists_template hs)
  | extend hr he => exact absurd hs.extensions he
  | nest depth => exact ⟨h.catalog, h.above⟩

end State

namespace Resolver

variable {r : Resolver} {drafts : List Draft} {c₀ : Catalog} {s : State}

theorem Moves.straight (hm : Moves r (.start c₀) s) (hs : r.Static drafts)
    (hc : Declared r drafts c₀) (hacyc : Draft.Acyclic r.types drafts)
    (hord : Draft.InterceptorsInOrder r.types drafts) : s.Straight r drafts c₀ := by
  induction hm with
  | refl => exact State.straight_start c₀
  | tail hm h ih =>
    exact ih.move hs hc hacyc hord (Moves.identified hm hc) (Moves.tallied hm) h

/-- **Drafts that depend on each other in no cycle lead to none**: if nothing is declared on the fly
and no interceptor depends on one that is declared before it for the same draft, then no cycle is
reported, and no plan has a proxy. -/
theorem no_cycle_of_acyclic (r : Resolver) (fuel : Nat) (drafts : List Draft) (round : Nat)
    (hs : r.Static drafts) (ho : ∀ d ∈ drafts, d.origin.isFound = true)
    (hacyc : Draft.Acyclic r.types drafts)
    (hord : Draft.InterceptorsInOrder r.types drafts) :
    (∀ claim chain, r.resolve fuel drafts round ≠ .error (.failure (.circular claim chain))) ∧
    ∀ p, r.resolve fuel drafts round = .ok (.resolved p) →
      ∀ q ∈ p.components, q.isProxy = false := by
  refine ⟨fun claim chain h => ?_, fun p h q hq => ?_⟩
  · obtain ⟨goal, t, ht, f, below, hst, -, -, -, -, hf⟩ :=
      closesCycle_of_resolve hs.extensions h rfl
    obtain ⟨c₀, hc, hm⟩ := ht.moves
    have ha := (hm.straight hs hc hacyc hord).above
    rw [hst] at ha
    exact (ha.1 _ hf).ne hacyc hord rfl
  · obtain ⟨s, hcs, rfl⟩ := resolve_eq_resolved_iff.1 h
    obtain ⟨c₀, hc, hm⟩ := hcs.reachable.moves
    obtain ⟨i, hi⟩ := List.mem_iff_getElem?.1 hq
    obtain ⟨n, hn, rfl⟩ := State.exists_of_toPlan hi
    have hd := (hm.identified hc).declared n (List.mem_of_getElem? hn)
    rw [(hm.straight hs hc hacyc hord).catalog] at hd
    exact hc.isProxy ho _ (hc.mem_sources hs hd)

/-! ## Two interceptors of a service -/

/-- An auditor and a tracer intercept services. -/
def wrapped : Resolver where
  types.types := .ofList
    [("Service", { kind := .interface }), ("Users", { supertypes := [.named "Service" []] }),
     ("Auditor", { intercepts := some (.named "Service" []) }),
     ("Tracer", { intercepts := some (.named "Service" []) })]

/-- The service. -/
def users : Draft where
  name := "users"
  type := .named "Users" []
  isRoot := true

/-- The tracer, which needs the auditor. -/
def tracer : Draft where
  name := "tracer"
  type := .named "Tracer" []
  claims := [{ type := .named "Auditor" [] }]

/-- The auditor. -/
def auditor : Draft where
  name := "auditor"
  type := .named "Auditor" []

/-- Each of these drafts depends only on those after it. -/
def layers : List Draft := [users, tracer, auditor]

/-- The layer of a draft of a list. -/
def layerOf (drafts : List Draft) (i : Nat) : Nat := drafts[i]?.elim 0 layers.idxOf

theorem static_wrapped (hl : ∀ d ∈ drafts, d ∈ layers) : wrapped.Static drafts where
  extensions := rfl
  constructors := Universe.autoConstructor?_eq_none (by decide)
  wrappers := Universe.optionalInner?_eq_none (by decide)
  templates d hd := by
    have key : ∀ d ∈ layers, d.isTemplate = false := by decide
    exact key d (hl d hd)

theorem layerOf_lt_of_dependsOn (hl : ∀ d ∈ drafts, d ∈ layers) (i j : Nat)
    (h : Draft.DependsOn wrapped.types drafts i j) : layerOf drafts i < layerOf drafts j := by
  unfold layerOf
  cases h with
  | @claimed d e c hd he hc hk hs =>
    have key : ∀ d ∈ layers, ∀ e ∈ layers, ∀ c ∈ d.claims.map (Claim.bind d.typeParams),
        wrapped.types.assignable? 9 (e.type.bind e.typeParams) c.type =
          some (Decidable.decide (layers.idxOf d < layers.idxOf e)) ∧
        wrapped.types.wrappable? 9 (e.type.bind e.typeParams) c.type = some false := by
      decide +kernel
    obtain ⟨ha, hw⟩ :=
      key d (hl d (List.mem_of_getElem? hd)) e (hl e (List.mem_of_getElem? he)) c hc
    rw [hd, he]
    rcases hs.2 with hs | hs
    · exact of_decide_eq_true ((Universe.assignable?_iff ha).2 hs)
    · cases (Universe.wrappable?_iff hw).2 hs
  | intercepted h =>
    obtain ⟨d, e, hd, he, hi⟩ := h
    have key : ∀ d ∈ layers, ∀ e ∈ layers,
        wrapped.types.interceptorFor? 9 (e.type.bind e.typeParams) (d.type.bind d.typeParams) =
          some (Decidable.decide (layers.idxOf d < layers.idxOf e ∧ d = users)) := by
      decide +kernel
    have hk := key d (hl d (List.mem_of_getElem? hd)) e (hl e (List.mem_of_getElem? he))
    rw [hd, he]
    exact (of_decide_eq_true ((Universe.interceptorFor?_iff hk).2 hi)).1

theorem acyclic_wrapped (hl : ∀ d ∈ drafts, d ∈ layers) : Draft.Acyclic wrapped.types drafts :=
  fun _ h => Nat.lt_irrefl _ (Draft.DependsOn.lt_of_transGen (layerOf_lt_of_dependsOn hl) h)

/-- If the tracer is declared before the auditor, then there is a plan without proxies. -/
theorem no_cycle_of_acyclic_wrapped : ∃ p, wrapped.resolve 50 layers 0 = .ok (.resolved p) ∧
    ∀ q ∈ p.components, q.isProxy = false := by
  obtain ⟨p, hp, -⟩ := exists_plan (x := wrapped.resolve 50 layers 0) (fun _ => true)
    (by decide +kernel)
  have hord : Draft.InterceptorsInOrder wrapped.types layers := by
    rintro k i j ⟨-, d, -, hd, -⟩ ⟨-, e, -, he, -⟩ hij h
    have key : ∀ i < layers.length, layerOf layers i = i := by decide
    have hlt := Draft.DependsOn.lt_of_transGen (layerOf_lt_of_dependsOn fun _ => id) h
    rw [key i (List.getElem?_eq_some_iff.1 hd).1, key j (List.getElem?_eq_some_iff.1 he).1] at hlt
    exact Nat.lt_asymm hij hlt
  obtain ⟨-, h⟩ := no_cycle_of_acyclic wrapped 50 layers 0 (static_wrapped fun _ => id)
    (by decide) (acyclic_wrapped fun _ => id) hord
  exact ⟨p, hp, h p hp⟩

/-- If the auditor is declared before the tracer, then a cycle is reported, although there is
none. -/
theorem circular_of_interceptors : wrapped.Static [users, auditor, tracer] ∧
    (∀ d ∈ [users, auditor, tracer], d.origin = .annotated) ∧
    Draft.Acyclic wrapped.types [users, auditor, tracer] ∧
    ∃ claim chain, wrapped.resolve 50 [users, auditor, tracer] 0 =
      .error (.failure (.circular claim chain)) := by
  have hl : ∀ d ∈ [users, auditor, tracer], d ∈ layers := by decide
  exact ⟨static_wrapped hl, by decide, acyclic_wrapped hl, exists_circular (by decide +kernel)⟩

end Resolver

end Wiring
