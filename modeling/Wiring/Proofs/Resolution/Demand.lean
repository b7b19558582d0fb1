import Wiring.Proofs.Resolution.Index
import Wiring.Proofs.Resolution.Interception
/-!
# Every component of a plan is wanted

A component is started because it is a root, because a component in progress claims it, or because
its type intercepts that of a component that is started. A proxy is made for a component that
claims what it stands for. So everything in a plan is reached from its roots.

It need not be reached along the edges of the plan. An interceptor is started whatever its tags are,
but bound only to components that carry them. And a claim on one instance is looked up again once
the component that was started for it is finished; then another one may satisfy it better
(`Resolver.components_without_use`). `Plan.CallsFor` says along what everything is reached.

* `State.Sought.move`: what is started is called for by what was started before.
* `State.Collects.move`: what is awaited for a collection gets into it.
* `State.Employed.move`: a proxy gets an edge.
* `Resolver.components_are_wanted` puts them together.
-/

namespace Wiring

/-! ## What calls for a component -/

namespace Plan

/-- The component at `i` uses the one at `j`. -/
inductive Uses (p : Plan) (i j : Nat) : Prop
  /-- It needs it for its construction. -/
  | edge {x : Component} {e : Edge} (hx : p.components[i]? = some x) (he : e ∈ x.dependencies)
      (hj : j ∈ e.constructionTargets) : Uses p i j
  /-- It is a proxy for it. -/
  | parameter {x : Component} {c : Claim} {d : Nat} (hx : p.components[i]? = some x)
      (he : .proxyParameter c d (some j) ∈ x.dependencies) : Uses p i j
  /-- It is intercepted by it. -/
  | interceptor {x : Component} (hx : p.components[i]? = some x) (hj : j ∈ x.interceptors) :
      Uses p i j

/-- The component at `i` calls for the one at `j`. -/
inductive CallsFor (u : Universe) (p : Plan) (i j : Nat) : Prop
  /-- It uses it. -/
  | uses (h : p.Uses i j) : CallsFor u p i j
  /-- Its type is intercepted by that of the other, whatever the tags are. -/
  | intercepted {x y : Component} (hx : p.components[i]? = some x)
      (hy : p.components[j]? = some y) (h : u.Intercepts y.type x.type) : CallsFor u p i j
  /-- It has a claim on one instance, which the other satisfies. -/
  | claimed {x y : Component} {e : Edge} (hx : p.components[i]? = some x)
      (hy : p.components[j]? = some y) (he : e ∈ x.dependencies)
      (hk : e.claim.kind.isSingle = true) (ha : e.claim.tags.Accepts y.tags)
      (ht : u.Reaches y.type e.claim.type ∨ u.Wraps y.type e.claim.type) : CallsFor u p i j

/-- A root calls for the component, or for what calls for it, and so on. -/
def Wanted (u : Universe) (p : Plan) (j : Nat) : Prop :=
  ∃ i x, p.components[i]? = some x ∧ x.isRoot = true ∧ Relation.ReflTransGen (p.CallsFor u) i j

theorem Wanted.tail {u : Universe} {p : Plan} {i j : Nat} (h : p.Wanted u i)
    (hj : p.CallsFor u i j) : p.Wanted u j := by
  obtain ⟨k, x, hk, hx, h⟩ := h
  exact ⟨k, x, hk, hx, h.tail hj⟩

/-- A root uses the component, or what uses it, and so on. -/
def Reached (p : Plan) (j : Nat) : Prop :=
  ∃ i x, p.components[i]? = some x ∧ x.isRoot = true ∧ Relation.ReflTransGen p.Uses i j

/-- Whether the component at `j` is no root and none uses it. -/
def isIdle (p : Plan) (j : Nat) : Bool :=
  (p.components[j]?.any fun x => !x.isRoot) && p.components.all fun x =>
    !x.interceptors.contains j && x.dependencies.all fun e =>
      !e.constructionTargets.contains j && match e with
        | .proxyParameter _ _ target => target != some j
        | _ => true

/-- What is idle is in the plan but not reached. -/
theorem not_reached_of_isIdle {p : Plan} {j : Nat} (h : p.isIdle j = true) :
    j < p.size ∧ ¬ p.Reached j := by
  obtain ⟨hj, hall⟩ := Bool.and_eq_true_iff.1 h
  obtain ⟨y, hy, hroot⟩ := (Option.any_eq_true _ _).1 hj
  refine ⟨(List.getElem?_eq_some_iff.1 hy).1, ?_⟩
  rintro ⟨i, x, hx, hr, hi⟩
  cases hi with
  | refl =>
    obtain rfl := Option.some.inj (hx.symm.trans hy)
    simp [hr] at hroot
  | @tail k _ _ hk =>
    -- The last use on the way is an edge, a parameter or an interceptor of some component.
    have hnone {z : Component} (hz : p.components[k]? = some z) :=
      List.all_eq_true.1 hall z (List.mem_of_getElem? hz)
    simp only [Bool.and_eq_true, List.all_eq_true] at hnone
    cases hk with
    | edge hz he hj =>
      have := ((hnone hz).2 _ he).1
      simp [hj] at this
    | parameter hz he =>
      have := ((hnone hz).2 _ he).2
      simp at this
    | interceptor hz hj =>
      have := (hnone hz).1
      simp [hj] at this

end Plan

theorem Tags.accepts_self (t : Tags) : t.Accepts t := by
  unfold Accepts
  split
  · next h => exact h
  · exact .inr fun _ h => h

namespace Resolver

/-- What is declared on the fly for a claim satisfies it. -/
theorem Supplies.satisfies {r : Resolver} {s : State} {c : Claim} {draft : Draft}
    (h : Supplies r s c draft) (id : Nat) : (draft.declare id).Satisfies r.types c := by
  cases h with
  | @specialized t σ n ht ha hu =>
    refine ⟨ha, ?_⟩
    have e : ((t.instantiate σ).declare id).type = t.type.substitute σ := TypeExpr.bind_nil _
    rw [e]
    exact Universe.reaches_of_unify? hu
  | @wrapper inner h =>
    refine ⟨Tags.accepts_self _, .inl ?_⟩
    have e : ((optionalDraft c inner).declare id).type = c.type := TypeExpr.bind_nil _
    rw [e]
    exact .refl _
  | @final a h ha =>
    refine ⟨ha, .inl ?_⟩
    have e : ((finalDraft c a).declare id).type = c.type := TypeExpr.bind_nil _
    rw [e]
    exact .refl _

end Resolver

namespace State

open Resolver

variable {u : Universe} {r : Resolver} {s t z : State} {d q x : Source} {n m : Node} {c : Claim}
  {e : Edge} {i j k id round : Nat}

/-! ## Collections -/

/-- The component of the identity is finished, and the edge leads to it. -/
def Includes (s : State) (e : Edge) (id : Nat) : Prop :=
  ∃ i ∈ e.constructionTargets, ∃ n, s.resolved[i]? = some n ∧ n.source.id = id

/-- The edge for the `k`-th claim of `q`, if it is made, leads to the component of the identity. -/
structure Collects (s : State) (q : Source) (k id : Nat) : Prop where
  /-- While the component is in progress. -/
  inProgress : ∀ f, .component f ∈ s.stack → f.source = q → ∀ e, f.edges[k]? = some e →
    s.Includes e id
  /-- When it is finished. -/
  finished : ∀ n ∈ s.resolved, n.source = q → ∀ e, n.edges[k]? = some e → s.Includes e id

theorem Includes.mono (h : s.Includes e id) (hg : s.Grows t) : t.Includes e id := by
  obtain ⟨i, hi, n, hn, hid⟩ := h
  exact ⟨i, hi, n, hg.getElem? hn, hid⟩

/-- A claim on every match is answered with all that satisfies it and is no default. -/
theorem includes_of_answers (hi : s.Identified r.types) (hx : s.Indexed) (hk : c.kind.isAll = true)
    (hd : d ∈ s.declaredMatches c) (hn : d.isDefault = false) (h : Answers r s c e) :
    s.Includes e d.id := by
  cases h with
  | every _ ha =>
    obtain ⟨m, hm, n, hres, rfl⟩ := exists_match hi hx hd (isResolved_of_awaited ha hd hn)
    exact ⟨m.position, List.mem_map_of_mem (List.mem_map_of_mem hm), n, hres, rfl⟩
  | finished hs | declared hs => simp [ClaimKind.isSingle, hk] at hs
  | absent hs => cases e : c.kind <;> simp_all [ClaimKind.isAll]
  | token hs => simp [hs, ClaimKind.isAll] at hk

/-- **A move keeps collections complete.** -/
theorem Collects.move (h : s.Collects q k d.id) (hi : s.Identified r.types) (hx : s.Indexed)
    (ht : s.Tallied) (hq : q.claims[k]? = some c) (hk : c.kind.isAll = true)
    (hd : d ∈ s.declaredMatches c) (hn : d.isDefault = false) (hm : r.Move s t) :
    t.Collects q k d.id where
  inProgress f hf hs e he := by
    refine Includes.mono ?_ hm.grows
    -- One more edge is the `k`-th only if it answers the claim.
    have hanswer {g : ComponentFrame} {c' : Claim} {cs : List Claim} {e' : Edge}
        (hg : .component g ∈ s.stack) (hp : g.pending = c' :: cs) (hgs : g.source = q)
        (he : (g.answer e').edges[k]? = some e) (hnew : c' = c → s.Includes e' d.id) :
        s.Includes e d.id := by
      rcases Nat.lt_trichotomy k g.edges.length with hlt | rfl | hlt
      · rw [ComponentFrame.answer, List.getElem?_append_left hlt] at he
        exact h.inProgress g hg hgs e he
      · have hc := ht.inProgress g hg
        rw [hp, hgs] at hc
        rw [← hc, List.getElem?_append_right (by simp)] at hq
        obtain rfl : e' = e := by simpa [ComponentFrame.answer] using he
        exact hnew (by simpa using hq)
      · have := (List.getElem?_eq_some_iff.1 he).1
        simp only [ComponentFrame.answer, List.length_append, List.length_singleton] at this
        omega
    cases hm.arises hf with
    | kept hf => exact h.inProgress f hf hs e he
    | answered hg hp ha e =>
      subst e
      refine hanswer hg hp hs he ?_
      rintro rfl
      exact includes_of_answers hi hx hk hd hn ha
    | bypassed hg hp hs' e =>
      subst e
      refine hanswer hg hp hs he ?_
      rintro rfl
      simp [ClaimKind.isSingle, hk] at hs'
    | started _ _ _ e =>
      subst e
      simp [ComponentFrame.start] at he
  finished n hn' hs e he := by
    rcases hm.mem_resolved hn' with hn' | ⟨f, hf, hfs, hfe, -⟩ | ⟨d', claimed, hsf⟩
    · exact (h.finished n hn' hs e he).mono hm.grows
    · exact (h.inProgress f hf (hfs.trans hs) e (hfe ▸ he)).mono hm.grows
    · -- A proxy has one claim only, on one instance.
      rw [← hs, hsf.claims_eq, List.getElem?_singleton] at hq
      split at hq
      · cases hq
        cases hk
      · cases hq

/-! ## Proxies -/

/-- The cycle on top of the stack is about to be broken by the proxy at the position. -/
def Bypasses (s : State) (i : Nat) : Prop :=
  ∃ f w below c cs, s.stack = .component f :: .component w :: below ∧ w.pending = c :: cs ∧
    f.source.id ∈ Frame.ids (.component w :: below) ∧
    s.proxies.lookup (c.type, f.source.id) = some i

theorem Bypasses.lookup {f w : ComponentFrame} {below : List Frame} {cs : List Claim}
    (h : s.Bypasses i) (hs : s.stack = .component f :: .component w :: below)
    (hw : w.pending = c :: cs) : s.proxies.lookup (c.type, f.source.id) = some i := by
  obtain ⟨f', w', below', c', cs', hs', hw', -, hl⟩ := h
  rw [hs] at hs'
  cases hs'
  rw [hw] at hw'
  cases hw'
  exact hl

/-- What is worked on closes no cycle that is about to be broken. -/
theorem not_bypasses_of_component {f : ComponentFrame} {below : List Frame}
    (hs : s.stack = .component f :: below) (hb : ¬ Frame.ClosesCycle f.source.id below) :
    ¬ s.Bypasses i := by
  rintro ⟨f', w, below', c, cs, hs', hw, hf, -⟩
  rw [hs] at hs'
  cases hs'
  exact hb ⟨w, below', rfl, by simp [hw], hf⟩

theorem not_bypasses_of_root {below : List Frame} (hs : s.stack = .root d :: below) :
    ¬ s.Bypasses i := by
  rintro ⟨f', w, below', c, cs, hs', -⟩
  rw [hs] at hs'
  cases hs'

/-- Proxies need nothing for their construction, and are needed. -/
structure Employed (s : State) : Prop where
  /-- They need nothing. -/
  bare : ∀ x ∈ s.proxies, ∃ n, s.resolved[x.2]? = some n ∧ ∀ e ∈ n.edges, e.constructionTargets = []
  /-- Some edge leads to them, or is about to. -/
  used : ∀ x ∈ s.proxies, (∃ id e, s.Kept id e ∧ x.2 ∈ e.constructionTargets) ∨ s.Bypasses x.2

theorem employed_start (c : Catalog) : (start c).Employed where
  bare := by simp [start]
  used := by simp [start]

/-- **A move keeps proxies employed.** -/
theorem Employed.move (h : s.Employed) (hp : Frame.Each Frame.Passing s.stack)
    (hm : r.Move s t) : t.Employed where
  bare x hx := by
    have hold (hx : x ∈ s.proxies) : ∃ n, t.resolved[x.2]? = some n ∧
        ∀ e ∈ n.edges, e.constructionTargets = [] := by
      obtain ⟨n, hn, he⟩ := h.bare x hx
      exact ⟨n, hm.grows.getElem? hn, he⟩
    cases hm with
    | forward =>
      rcases List.mem_cons.1 hx with rfl | hx
      · exact ⟨_, List.getElem?_concat_length, by simp [Edge.constructionTargets]⟩
      · exact hold hx
    | _ => exact hold hx
  used x hx := by
    have hold (hx : x ∈ s.proxies) : (∃ id e, t.Kept id e ∧ x.2 ∈ e.constructionTargets) ∨
        s.Bypasses x.2 := by
      refine (h.used x hx).imp_left ?_
      rintro ⟨id, e, he, hx⟩
      exact ⟨id, e, he.move hp hm, hx⟩
    cases hm with
    | skip hs | expand hs => exact .inl ((hold hx).resolve_right (not_bypasses_of_root hs))
    | @forward f w below c cs n proxy catalog hs hw hf hk ht hl hr =>
      rcases List.mem_cons.1 hx with rfl | hx
      · exact .inr ⟨f, w, below, c, cs, hs, hw, hf, List.lookup_cons_self⟩
      · -- Another proxy is not the one that is missing.
        refine .inl ((hold hx).resolve_right fun hb => ?_)
        have hnone := hb.lookup hs hw
        simp [hl] at hnone
    | @bypass f w below c cs i hs hw hf hk ht hl =>
      rcases hold hx with hx | hb
      · exact .inl hx
      · obtain rfl : i = x.2 := Option.some.inj (hl.symm.trans (hb.lookup hs hw))
        refine .inl ⟨w.source.id, .single c ⟨x.2, false⟩, ?_, by simp⟩
        exact .inl ⟨_, List.mem_cons_self, rfl, List.mem_append_right _ (List.mem_singleton_self _)⟩
    | commit hs hb | answer hs hb | await hs hb | supply hs hb =>
      exact .inl ((hold hx).resolve_right (not_bypasses_of_component hs hb))
    | extend hr => exact hold hx
    | nest depth => exact hold hx

/-! ## What is started is called for -/

/-- What is on the stack in `s` or finished there is wanted in the plan of `z`, except for proxies,
which are looked at in the end. -/
structure Sought (u : Universe) (round : Nat) (z s : State) : Prop where
  /-- What is on the stack. -/
  pending : ∀ frame ∈ s.stack, ∀ (i : Nat) (n : Node), z.resolved[i]? = some n →
    n.source.id = frame.id → (z.toPlan round).Wanted u i
  /-- What is finished. -/
  finished : ∀ (i : Nat) (n : Node), s.resolved[i]? = some n →
    (∃ key, (key, i) ∈ s.proxies) ∨ (z.toPlan round).Wanted u i

theorem getElem?_toPlan_of (hn : z.resolved[i]? = some n) :
    (z.toPlan round).components[i]? = some (z.componentAt i n) := by
  rw [getElem?_toPlan, hn, Option.map_some]

theorem wanted_of_isRoot (hn : z.resolved[i]? = some n) (hr : n.source.isRoot = true) :
    (z.toPlan round).Wanted u i :=
  ⟨i, _, getElem?_toPlan_of hn, hr, .refl⟩

theorem callsFor_of_edge (hm : z.resolved[i]? = some m) (he : e ∈ m.edges)
    (hj : j ∈ e.constructionTargets) : (z.toPlan round).CallsFor u i j :=
  .uses (.edge (getElem?_toPlan_of hm) (List.mem_map_of_mem he) (by simpa using hj))

theorem callsFor_of_satisfies (hm : z.resolved[i]? = some m) (hn : z.resolved[j]? = some n)
    (hc : c ∈ m.edges.map Edge.claim) (hk : c.kind.isSingle = true)
    (h : n.source.toDeclaration.Satisfies u c) : (z.toPlan round).CallsFor u i j := by
  obtain ⟨e, he, rfl⟩ := List.mem_map.1 hc
  rw [← z.claim_bindProxy e] at hk h
  exact .claimed (getElem?_toPlan_of hm) (getElem?_toPlan_of hn) (List.mem_map_of_mem he) hk h.1 h.2

/-- What is in progress is finished in the end. -/
theorem exists_node (hi : t.Identified r.types) (hiz : z.Identified r.types) (hz : Moves r t z)
    (hs : z.stack = []) {f : ComponentFrame} (hf : .component f ∈ t.stack) :
    ∃ (i : Nat) (n : Node), z.resolved[i]? = some n ∧ n.source = f.source := by
  have hup : t.Upcoming 0 f.source.id := .inl (Frame.mem_ids.2 ⟨f, hf, rfl⟩)
  have hup : z.Upcoming 0 f.source.id :=
    hz.invariant (fun _ _ h => Upcoming.move h (Nat.zero_le _)) hup
  obtain ⟨j, -, hj⟩ := hup.exists_position? hiz hs
  obtain ⟨n, hn, e⟩ := exists_of_position? hj
  exact ⟨j, n, hn, hiz.source_eq (List.mem_of_getElem? hn)
    (hz.grows.catalog.declares (hi.declares hf)) e⟩

/-- A component is wanted, and with it the interceptors that are started before it. -/
theorem Sought.push (h : Sought r.types round z s) (hi : (s.push d).Identified r.types)
    (hiz : z.Identified r.types) (hz : Moves r (s.push d) z) (hs : z.stack = [])
    (hd : ∀ (i : Nat) (n : Node), z.resolved[i]? = some n → n.source = d →
      (z.toPlan round).Wanted r.types i) : Sought r.types round z (s.push d) where
  pending frame hf i n hn e := by
    have hnr := List.mem_of_getElem? hn
    have hdf : .component (.start d) ∈ (s.push d).stack := by simp [stack_push, Frame.started]
    rcases mem_push hf with hf' | ⟨x, rfl | hx, rfl⟩
    · exact h.pending frame hf' i n hn e
    · exact hd i n hn (hiz.source_eq hnr (hz.grows.catalog.declares (hi.declares hdf)) e)
    · -- The interceptor is called for by the component.
      obtain ⟨j, m, hm, hmd⟩ := exists_node hi hiz hz hs hdf
      have hxd := Catalog.declares_of_mem hi.sound (mem_wrapping hx).1
      obtain rfl : n.source = x := hiz.source_eq hnr (hz.grows.catalog.declares hxd) e
      have hl {k : Nat} {m : Node} (hm : z.resolved[k]? = some m) : m.source.Listed r.types :=
        (hiz.declared m (List.mem_of_getElem? hm)).1
      refine (hd j m hm hmd).tail (.intercepted (getElem?_toPlan_of hm) (getElem?_toPlan_of hn) ?_)
      refine ((hl hm).isInterceptedBy_iff (hl hn)).1 ?_
      rw [hmd]
      exact (intercepts_of_mem_wrapping hx).2
  finished := h.finished

end State

namespace Resolver

variable {r : Resolver} {drafts : List Draft} {s t z : State} {d : Source} {n : Node} {c : Claim}
  {cs : List Claim} {f : ComponentFrame} {below : List Frame} {c₀ : Catalog} {i round : Nat}

/-- **What is awaited for a collection gets into it.** -/
theorem Moves.collects (hm : Moves r (.start c₀) s) (hc : Declared r drafts c₀)
    (hz : Moves r s z) (hs : s.stack = .component f :: below)
    (hb : ¬ Frame.ClosesCycle f.source.id below) (hf : f.pending = c :: cs) (hd : Awaits s c d)
    (hk : c.kind.isAll = true) (hn : d.isDefault = false) :
    z.Collects f.source f.edges.length d.id := by
  have hi := hm.identified hc
  have hclaims := hm.tallied.inProgress f (by simp [hs])
  have hq : f.source.claims[f.edges.length]? = some c := by simp [← hclaims, hf]
  obtain ⟨hds, hdp, hdf⟩ := State.mem_sources_of_mem_declaredMatches hd.declared
  induction hz with
  | refl =>
    refine ⟨fun g hg e x hx => ?_, fun m hm' e => ?_⟩
    · rw [hs] at hg
      rcases List.mem_cons.1 hg with hg | hg
      · cases hg
        simp at hx
      · -- The component is in progress on top only.
        exact absurd (Frame.mem_ids.2 ⟨g, hg, congrArg (·.id) e⟩) ((hi.top hs).not_mem hb)
    · have hu := State.isResolved_eq_false.1 (hi.unresolved f.source.id (by simp [hs]))
      exact absurd (congrArg (·.id) e) (hu m hm')
  | @tail y z hy h ih =>
    have hmy : Moves r (.start c₀) y := hm.trans hy
    have hdy := (State.mem_declaredMatches (hmy.identified hc).sound).2
      ⟨(Moves.grows hy).catalog.sources.mem hds, hdp, hdf⟩
    exact ih.move (hmy.identified hc) (hmy.indexed hc) hmy.tallied hq hk hdy hn h

/-- The component that is worked on is finished in the end, with an edge for its first pending
claim, and it is wanted. -/
theorem exists_requester (h : State.Sought r.types round z s) (hm : Moves r (.start c₀) s)
    (hc : Declared r drafts c₀) (hz : Moves r s z) (hzs : z.stack = [])
    (hs : s.stack = .component f :: below) (hf : f.pending = c :: cs) :
    ∃ (j : Nat) (m : Node), z.resolved[j]? = some m ∧ m.source = f.source ∧
      m.edges.map Edge.claim = f.edges.map Edge.claim ++ c :: cs ∧
      (z.toPlan round).Wanted r.types j := by
  have hmz : Moves r (.start c₀) z := hm.trans hz
  have hfs : .component f ∈ s.stack := by simp [hs]
  obtain ⟨j, m, hmj, e⟩ := State.exists_node (hm.identified hc) (hmz.identified hc) hz hzs hfs
  refine ⟨j, m, hmj, e, ?_, h.pending _ hfs j m hmj (congrArg (·.id) e)⟩
  rw [hmz.tallied.finished m (List.mem_of_getElem? hmj), e, ← hf, hm.tallied.inProgress f hfs]

/-- What is started for a claim on one instance is wanted. -/
theorem wanted_of_satisfies (h : State.Sought r.types round z s) (hm : Moves r (.start c₀) s)
    (hc : Declared r drafts c₀) (hz : Moves r s z) (hzs : z.stack = [])
    (hs : s.stack = .component f :: below) (hf : f.pending = c :: cs)
    (hk : c.kind.isSingle = true) (hn : z.resolved[i]? = some n)
    (hd : n.source.toDeclaration.Satisfies r.types c) : (z.toPlan round).Wanted r.types i := by
  obtain ⟨j, m, hmj, -, hclaims, hw⟩ := exists_requester h hm hc hz hzs hs hf
  refine hw.tail (State.callsFor_of_satisfies hmj hn ?_ hk hd)
  rw [hclaims]
  simp

/-- What is started for a claim on all matches is wanted. -/
theorem wanted_of_collects (h : State.Sought r.types round z s) (hm : Moves r (.start c₀) s)
    (hc : Declared r drafts c₀) (hz : Moves r s z) (hzs : z.stack = [])
    (hs : s.stack = .component f :: below) (hf : f.pending = c :: cs)
    (hcol : z.Collects f.source f.edges.length d.id) (hn : z.resolved[i]? = some n)
    (hd : n.source = d) : (z.toPlan round).Wanted r.types i := by
  have hmz : Moves r (.start c₀) z := hm.trans hz
  have hiz := hmz.identified hc
  obtain ⟨j, m, hmj, e, hclaims, hw⟩ := exists_requester h hm hc hz hzs hs hf
  have hl := congrArg List.length hclaims
  simp only [List.length_map, List.length_append, List.length_cons] at hl
  have hlt : f.edges.length < m.edges.length := by omega
  obtain ⟨i', hi', n', hn', hid⟩ := hcol.finished m (List.mem_of_getElem? hmj) e
    m.edges[f.edges.length] (List.getElem?_eq_getElem hlt)
  -- There is one component only of this identity.
  have hpos := hiz.position?_iff.2 ⟨n', hn', hid⟩
  rw [← hd, hiz.position?_iff.2 ⟨n, hn, rfl⟩, Option.some.injEq] at hpos
  subst hpos
  exact hw.tail (State.callsFor_of_edge hmj (List.getElem_mem hlt) hi')

/-- **A move starts only what is wanted in the end.** -/
theorem sought_move (h : State.Sought r.types round z s) (hm : Moves r (.start c₀) s)
    (hc : Declared r drafts c₀) (hst : r.Move s t) (hz : Moves r t z) (hzs : z.stack = []) :
    State.Sought r.types round z t := by
  have hsz : Moves r s z := hz.head hst
  have hi := hm.identified hc
  have hit := Moves.identified (hm.tail hst) hc
  have hmz : Moves r (.start c₀) z := hm.trans hsz
  have hiz := hmz.identified hc
  cases hst with
  | skip hs hd => exact ⟨fun g hg => h.pending g (hs ▸ List.mem_cons_of_mem _ hg), h.finished⟩
  | @expand d below hs hd =>
    refine State.Sought.push (s := { s with stack := below })
      ⟨fun g hg => h.pending g (hs ▸ List.mem_cons_of_mem _ hg), h.finished⟩ hit hiz hz hzs ?_
    exact fun i n hn e => h.pending (.root d) (by simp [hs]) i n hn (congrArg (·.id) e)
  | forward hs hw hf hk ht hp hr =>
    refine ⟨h.pending, fun i n hn => ?_⟩
    rcases State.getElem?_commit hn with hn | ⟨rfl, rfl⟩
    · exact (h.finished i n hn).imp_left fun ⟨k, hk⟩ => ⟨k, List.mem_cons_of_mem _ hk⟩
    · exact .inl ⟨_, List.mem_cons_self⟩
  | @bypass f w below c cs i hs hw hf hk ht hp =>
    refine ⟨fun g hg => ?_, h.finished⟩
    rcases List.mem_cons.1 hg with rfl | hg
    · exact h.pending (.component w) (by simp [hs])
    · exact h.pending g (by simp [hs, hg])
  | @commit f below hs hb hf =>
    refine ⟨fun g hg => h.pending g (hs ▸ List.mem_cons_of_mem _ hg), fun i n hn => ?_⟩
    have hnz := hz.grows.getElem? hn
    rcases State.getElem?_commit hn with hn | ⟨rfl, rfl⟩
    · exact h.finished i n hn
    · exact .inr (h.pending (.component f) (by simp [hs]) _ _ hnz rfl)
  | @answer f below c cs e hs hb hf he =>
    refine ⟨fun g hg => ?_, h.finished⟩
    rcases List.mem_cons.1 hg with rfl | hg
    · exact h.pending (.component f) (by simp [hs])
    · exact h.pending g (by simp [hs, hg])
  | @await f below c cs d hs hb hf hd =>
    refine h.push hit hiz hz hzs fun i n hn e => ?_
    rcases hd.wanted with hk | ⟨hk, hdef⟩
    · obtain ⟨hds, -, hfit⟩ := State.mem_sources_of_mem_declaredMatches hd.declared
      refine wanted_of_satisfies h hm hc hsz hzs hs hf hk hn ?_
      rw [e]
      exact (hi.sound.listed d hds).fits_iff.1 hfit
    · exact wanted_of_collects h hm hc hsz hzs hs hf (hm.collects hc hsz hs hb hf hd hk hdef) hn e
  | @supply f below c cs b draft d catalog hs hb hf hn hd hr hk =>
    refine State.Sought.push (s := { s with catalog }) ⟨h.pending, h.finished⟩ hit hiz hz hzs
      fun i n hn e => ?_
    refine wanted_of_satisfies h hm hc hsz hzs hs hf hk hn ?_
    rw [e, (Catalog.added_of_registerSource? hr).2.1]
    exact hd.satisfies _
  | extend hr => exact ⟨h.pending, h.finished⟩
  | nest depth => exact ⟨h.pending, h.finished⟩

theorem Moves.sought (hm : Moves r (.start c₀) s) (hc : Declared r drafts c₀) (hz : Moves r s z)
    (hzs : z.stack = []) : State.Sought r.types round z s := by
  induction hm with
  | refl =>
    refine ⟨fun g hg i n hn e => ?_, by simp [State.start]⟩
    obtain ⟨d, hd, rfl⟩ := List.mem_map.1 hg
    obtain ⟨hd, hr⟩ := List.mem_filter.1 hd
    have hiz := hz.identified hc
    obtain rfl : n.source = d := hiz.source_eq (List.mem_of_getElem? hn)
      (hz.grows.catalog.declares (Catalog.declares_of_mem hc.sound hd)) e
    exact State.wanted_of_isRoot hn hr
  | tail hm h ih => exact sought_move (ih (hz.head h)) hm hc h hz hzs

theorem Moves.employed (hm : Moves r (.start c₀) s) (hc : Declared r drafts c₀) :
    s.Employed := by
  induction hm with
  | refl => exact State.employed_start c₀
  | tail hm h ih => exact ih.move (Moves.passing hm hc) h

/-- **Every component of a plan is wanted**: a root calls for it, or for a component that calls for
it, and so on. -/
theorem components_are_wanted (r : Resolver) (fuel : Nat) (drafts : List Draft) (round : Nat)
    (p : Plan) (h : r.resolve fuel drafts round = .ok (.resolved p)) :
    ∀ j < p.size, p.Wanted r.types j := by
  obtain ⟨s, hs, rfl⟩ := resolve_eq_resolved_iff.1 h
  obtain ⟨c₀, hc, hm⟩ := hs.reachable.moves
  have hsought : State.Sought r.types round s s := hm.sought hc .refl hs.stack
  have hemp := hm.employed hc
  intro j hj
  rw [State.size_toPlan] at hj
  rcases hsought.finished j _ (List.getElem?_eq_getElem hj) with ⟨key, hk⟩ | hw
  · -- A proxy is used by a component that is none.
    have hused := (hemp.used _ hk).resolve_right fun ⟨f, w, below, c, cs, hst, _⟩ => by
      simp [hs.stack] at hst
    obtain ⟨id, e, hkept | ⟨m, hm', -, he⟩, hx⟩ := hused
    · obtain ⟨f, hf, -⟩ := hkept
      simp [hs.stack] at hf
    · obtain ⟨i, hi⟩ := List.mem_iff_getElem?.1 hm'
      rcases hsought.finished i m hi with ⟨key', hk'⟩ | hw
      · obtain ⟨m', hm', hbare⟩ := hemp.bare _ hk'
        obtain rfl := Option.some.inj (hi.symm.trans hm')
        simp [hbare e he] at hx
      · exact hw.tail (State.callsFor_of_edge hi he hx)
  · exact hw

/-! ## A service that is audited in part -/

/-- An auditor intercepts services. -/
def audited : Resolver where
  types.types := .ofList
    [("Service", { kind := .interface }), ("Users", { supertypes := [.named "Service" []] }),
     ("Auditor", { intercepts := some (.named "Service" []) })]

/-- A service, and an auditor for those that are tagged as secure. -/
def auditedDrafts : List Draft :=
  [{ name := "users", type := .named "Users" [], isRoot := true },
   { name := "auditor", type := .named "Auditor" [], tags := .ofList ["secure"] }]

theorem components_are_wanted_audited : ∃ p, audited.resolve 50 auditedDrafts 0 =
    .ok (.resolved p) ∧ p.size = 2 ∧ p.Wanted audited.types 0 ∧ p.Wanted audited.types 1 := by
  obtain ⟨p, hp, hsize⟩ := exists_plan (x := audited.resolve 50 auditedDrafts 0) (·.size == 2)
    (by decide +kernel)
  have hsize : p.size = 2 := by simpa using hsize
  have h := components_are_wanted audited 50 auditedDrafts 0 p hp
  exact ⟨p, hp, hsize, h 0 (by omega), h 1 (by omega)⟩

/-- Boxes are stores. -/
def boxed : Resolver where
  types.types := .ofList
    [("Store", { kind := .interface }),
     ("Box", { params := ["T"], supertypes := [.named "Store" []] })]

/-- An application needs a store, and the default store needs a box, which is made on the fly. -/
def boxedDrafts : List Draft :=
  [{ name := "app", type := .named "App" [], claims := [{ type := .named "Store" [] }],
     isRoot := true },
   { name := "fallback", type := .named "Store" [], isDefault := true,
     claims := [{ type := .named "Box" [.named "Text" []] }] },
   { name := "box", type := .named "Box" [.named "T" []], typeParams := ["T"] }]

/-- The auditor is in the plan, but no chain of uses leads to it from the service. Nor does one lead
from the application to the default store, because the box is finished before it. -/
theorem components_without_use :
    (∃ p, audited.resolve 50 auditedDrafts 0 = .ok (.resolved p) ∧ 0 < p.size ∧ ¬ p.Reached 0) ∧
    ∃ p, boxed.resolve 50 boxedDrafts 0 = .ok (.resolved p) ∧ 1 < p.size ∧ ¬ p.Reached 1 := by
  obtain ⟨p, hp, hidle⟩ := exists_plan (x := audited.resolve 50 auditedDrafts 0) (·.isIdle 0)
    (by decide +kernel)
  obtain ⟨q, hq, hidle'⟩ := exists_plan (x := boxed.resolve 50 boxedDrafts 0) (·.isIdle 1)
    (by decide +kernel)
  exact ⟨⟨p, hp, Plan.not_reached_of_isIdle hidle⟩, q, hq, Plan.not_reached_of_isIdle hidle'⟩

end Resolver

end Wiring
