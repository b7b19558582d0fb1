import Wiring.Proofs.Resolution.Edges
import Wiring.Proofs.Resolution.Order
/-!
# Every proxy is bound, and used only inside its cycle

A proxy is finished long before the declaration it stands for. That declaration was in progress
when the proxy was made, and what is in progress is finished in the end (`State.Upcoming.move`), so
the deferred parameter of a proxy is bound to a later component. An edge to a proxy is made for a
component above the one in progress, which is finished first; later look-ups do not find proxies.

* `State.Bound` is the invariant: proxies are remembered, what they stand for is upcoming, and edges
  lead to proxies only of what is upcoming, too.
* `Resolver.proxies_are_bound` says what it means for a plan.
-/

namespace Wiring

namespace State

open Resolver

variable {r : Resolver} {c₀ : Catalog} {s t : State} {c : Claim} {d : Source} {e : Edge}
  {n m : Node} {i j id : Nat} {frame : Frame} {below stack : List Frame} {f w : ComponentFrame}
  {P Q : Nat → Prop}

/-! ## What is finished later -/

/-- The component of the identity is in progress, or finished at the position or later. -/
def Upcoming (s : State) (i id : Nat) : Prop :=
  id ∈ Frame.ids s.stack ∨
    ∃ (j : Nat) (n : Node), i ≤ j ∧ s.resolved[j]? = some n ∧ n.source.id = id

/-- **What is upcoming stays so**: a component in progress is finished, or it is in progress below,
too. -/
theorem Upcoming.move (h : s.Upcoming i id) (hi : i ≤ s.resolved.length) (hm : r.Move s t) :
    t.Upcoming i id := by
  rcases h with h | ⟨j, n, hj, hn, e⟩
  · cases hm with
    | skip hs hd =>
      rw [hs] at h
      exact .inl h
    | expand hs hd =>
      rw [hs] at h
      exact .inl (mem_ids_push _ h)
    | forward => exact .inl h
    | bypass hs hw hf hk ht hp =>
      rw [hs] at h
      rcases List.mem_cons.1 h with rfl | h
      · exact .inl hf
      · exact .inl h
    | commit hs hb hf =>
      rw [hs] at h
      rcases List.mem_cons.1 h with rfl | h
      · exact .inr ⟨_, _, hi, List.getElem?_concat_length, rfl⟩
      · exact .inl h
    | answer hs hb hf he =>
      rw [hs] at h
      exact .inl h
    | await hs hb hf hd => exact .inl (mem_ids_push _ h)
    | @supply _ _ _ _ _ _ _ catalog hs hb hf hn hd hr =>
      exact .inl (mem_ids_push (s := { s with catalog }) _ h)
    | extend hr => exact .inl h
    | nest depth => exact .inl h
  · exact .inr ⟨j, n, hj, hm.grows.getElem? hn, e⟩

/-! ## Edges to proxies -/

/-- At the position there is no proxy, or one for a declaration with the property. -/
def Leads (r : Resolver) (s : State) (P : Nat → Prop) (i : Nat) : Prop :=
  ∃ n, s.resolved[i]? = some n ∧
    (n.source.isProxy = false ∨ ∃ d, n.StandsFor r d n.source.type ∧ P d.id)

theorem Leads.mono (h : s.Leads r P i) (hg : s.Grows t) (hPQ : ∀ id, P id → Q id) :
    t.Leads r Q i := by
  obtain ⟨n, hn, h⟩ := h
  refine ⟨n, hg.getElem? hn, h.imp_right fun ⟨d, hd, hP⟩ => ⟨d, hd, hPQ _ hP⟩⟩

theorem Provides.leads {x : Target} (h : s.Provides c x) : s.Leads r P x.index := by
  obtain ⟨n, fit, hn, hp, -⟩ := h
  exact ⟨n, hn, .inl hp⟩

/-- The edges of a frame lead to proxies only of components in progress here or below. -/
def Contained (r : Resolver) (s : State) : Frame → List Frame → Prop
  | .root _, _ => True
  | .component f, below => ∀ e ∈ f.edges, ∀ i ∈ e.constructionTargets,
    s.Leads r (· ∈ Frame.ids (.component f :: below)) i

/-- Proxies are remembered, what they stand for is upcoming, and edges lead to proxies only of what
is upcoming, too. -/
structure Bound (r : Resolver) (s : State) : Prop where
  /-- A proxy is remembered. -/
  remembered : ∀ (i : Nat) (n : Node) (d : Source), s.resolved[i]? = some n →
    n.StandsFor r d n.source.type → s.proxies.lookup (n.source.type, d.id) = some i
  /-- What a proxy stands for is finished later. -/
  upcoming : ∀ (i : Nat) (n : Node) (d : Source), s.resolved[i]? = some n →
    n.StandsFor r d n.source.type → s.Upcoming (i + 1) d.id
  /-- What the proxies that a component needs stand for is not finished before it. -/
  finished : ∀ (j : Nat) (n : Node), s.resolved[j]? = some n → ∀ e ∈ n.edges,
    ∀ i ∈ e.constructionTargets, s.Leads r (s.Upcoming j) i
  /-- The edges of components in progress stay inside their cycles. -/
  inProgress : Frame.Each (s.Contained r) s.stack

theorem Contained.mono (h : s.Contained r frame below) (hg : s.Grows t) :
    t.Contained r frame below := by
  cases frame with
  | root d => trivial
  | component f => exact fun e he i hi => (h e he i hi).mono hg fun _ h => h

theorem contained_start (s : State) (d : Source) (below : List Frame) :
    s.Contained r (.component (.start d)) below := by
  intro e he
  cases he

theorem bound_start (c : Catalog) : (start c).Bound r where
  remembered := by simp [start]
  upcoming := by simp [start]
  finished := by simp [start]
  inProgress := Frame.each_roots fun _ _ _ _ => trivial

/-- One more edge leads to no proxy, or to one for a component in progress here or below. -/
theorem Contained.answer (h : s.Contained r (.component f) below)
    (he : ∀ i ∈ e.constructionTargets, s.Leads r (· ∈ Frame.ids (.component f :: below)) i) :
    s.Contained r (.component (f.answer e)) below := by
  intro x hx i hi
  rcases List.mem_append.1 hx with hx | hx
  · exact h x hx i hi
  · rw [List.mem_singleton.1 hx] at hi
    exact he i hi

/-- **A move keeps the edges of components in progress inside their cycles.** -/
theorem Bound.contained_move (h : s.Bound r) (hi : s.Identified r.types) (ha : s.Answered r c₀)
    (hm : r.Move s t) : Frame.Each (t.Contained r) t.stack := by
  have hE : Frame.Each (t.Contained r) s.stack := h.inProgress.mono fun _ _ h => h.mono hm.grows
  cases hm with
  | skip hs hd =>
    rw [hs] at hE
    exact hE.2
  | expand hs hd =>
    rw [hs] at hE
    exact Frame.Each.push (s := { s with stack := _ }) hi.sound hE.2 (contained_start _ _ _)
      fun x _ below _ => contained_start _ x below
  | forward => exact hE
  | @bypass f w below c cs i hs hw hf hk ht hl =>
    rw [hs] at hE
    refine ⟨hE.2.1.answer fun x hx => ?_, hE.2.2⟩
    rw [Edge.constructionTargets_single, List.mem_singleton] at hx
    obtain ⟨n, d, hn, -, hid, hsf⟩ := ha.proxies _ (mem_of_lookup hl)
    refine ⟨n, hx ▸ hn, .inr ⟨d, ?_, ?_⟩⟩
    · rwa [hsf.type_eq]
    · rw [hid]
      exact hf
  | commit hs hb hf =>
    rw [hs] at hE
    exact hE.2
  | answer hs hb hf he =>
    rw [hs] at hE
    refine ⟨hE.1.answer fun x hx => ?_, hE.2⟩
    obtain ⟨y, rfl, hy⟩ := provides_of_answers hi he hx
    exact hy.leads
  | await hs hb hf hd =>
    exact Frame.Each.push hi.sound hE (contained_start _ _ _)
      fun x _ below _ => contained_start _ x below
  | @supply f below c cs n draft d catalog hs hb hf hn hd hr =>
    obtain ⟨hi', -⟩ := hi.register hr
    exact Frame.Each.push (s := { s with catalog }) hi'.sound hE (contained_start _ _ _)
      fun x _ below _ => contained_start _ x below
  | extend hr => exact hE
  | nest depth => exact hE

/-- After a state has grown, only new components need be looked at. -/
theorem Bound.grow (h : s.Bound r) (hg : s.Grows t)
    (hu : ∀ i id, i ≤ s.resolved.length → s.Upcoming i id → t.Upcoming i id)
    (hx : ∀ k i, s.proxies.lookup k = some i → t.proxies.lookup k = some i)
    (hn : ∀ (i : Nat) (n : Node), t.resolved[i]? = some n → s.resolved[i]? = some n ∨
      (∀ d, n.StandsFor r d n.source.type →
        t.proxies.lookup (n.source.type, d.id) = some i ∧ t.Upcoming (i + 1) d.id) ∧
      ∀ e ∈ n.edges, ∀ x ∈ e.constructionTargets, t.Leads r (t.Upcoming i) x)
    (hf : Frame.Each (t.Contained r) t.stack) : t.Bound r where
  remembered i n d hm hs := by
    rcases hn i n hm with hm | ⟨hm, -⟩
    · exact hx _ _ (h.remembered i n d hm hs)
    · exact (hm d hs).1
  upcoming i n d hm hs := by
    rcases hn i n hm with hm | ⟨hm, -⟩
    · exact hu _ _ (List.getElem?_eq_some_iff.1 hm).1 (h.upcoming i n d hm hs)
    · exact (hm d hs).2
  finished j n hm e he i hi := by
    rcases hn j n hm with hm | ⟨-, hm⟩
    · have hj := Nat.le_of_lt (List.getElem?_eq_some_iff.1 hm).1
      exact (h.finished j n hm e he i hi).mono hg fun id hid => hu j id hj hid
    · exact hm e he i hi
  inProgress := hf

/-- **A move keeps proxies bound.** -/
theorem Bound.move (h : s.Bound r) (hi : s.Identified r.types) (ha : s.Answered r c₀)
    (hm : r.Move s t) : t.Bound r := by
  refine h.grow hm.grows (fun i id hl hu => hu.move hl hm) (fun k i => hm.lookup) (fun i n hn => ?_)
    (h.contained_move hi ha hm)
  cases hm with
  | @forward f w below c cs b proxy catalog hs hw hf hk ht hp hr =>
    rcases getElem?_commit hn with hn | ⟨rfl, rfl⟩
    · exact .inl hn
    · -- The new proxy stands for the declaration of the frame.
      obtain ⟨-, e, -⟩ := Catalog.added_of_registerSource? hr
      have hsf : Node.StandsFor r ⟨proxy,
          [.proxyParameter f.source.forwardingClaim f.source.id none]⟩ f.source c.type :=
        ⟨⟨_, e⟩, rfl⟩
      refine .inr ⟨fun d hd => ?_, by simp [Edge.constructionTargets]⟩
      rw [hsf.type_eq, ← hsf.id_eq hd]
      exact ⟨List.lookup_cons_self, .inl (by simp [State.forwarded, State.commit, hs])⟩
  | @commit f below hs hb hf =>
    rcases getElem?_commit hn with hn | ⟨rfl, rfl⟩
    · exact .inl hn
    · have hE := h.inProgress
      rw [hs] at hE
      refine .inr ⟨fun d hd => ?_, fun e he x hx => ?_⟩
      · have hp := (ha.inProgress f (by simp [hs])).notProxy
        simp [hd.isProxy] at hp
      · refine (hE.1 e he x hx).mono ⟨List.prefix_append _ _, .refl _⟩ fun id hid => ?_
        rcases List.mem_cons.1 hid with rfl | hid
        · exact .inr ⟨_, _, Nat.le_refl _, List.getElem?_concat_length, rfl⟩
        · exact .inl hid
  | _ => exact .inl hn

end State

/-! ## The proxies of a plan -/

/-- The one instance by which a claim was satisfied. -/
def Edge.target? : Edge → Option Target
  | .reference _ t | .valueOf _ t | .promiseOf _ t => some t
  | .absent _ | .allOf _ _ | .typeToken _ | .proxyParameter _ _ _ => none

namespace Edge

variable {e : Edge} {c : Claim} {t : Target}

@[simp] theorem target?_single (c : Claim) (t : Target) : (single c t).target? = some t := by
  unfold single
  split <;> rfl

@[simp] theorem target?_bindProxy (s : State) (e : Edge) : (s.bindProxy e).target? = e.target? := by
  cases e <;> rfl

theorem mem_constructionTargets_of_target? (h : e.target? = some t) :
    t.index ∈ e.constructionTargets := by
  cases e <;> simp_all [target?, constructionTargets]

end Edge

/-- The component `q` waits with a claim for the component at `j`, that of the declaration of
`n`. -/
structure Plan.Binds (s : State) (p : Plan) (q : Component) (t : TypeExpr) (c : Claim) (n : Node)
    (j : Nat) : Prop where
  /-- The deferred parameter is the only edge. -/
  parameter : q.dependencies = [.proxyParameter c n.source.id (some j)]
  /-- It is behind a lazy handle. -/
  kind : c.kind = .promiseOf
  /-- The component was finished for the declaration. -/
  finished : s.resolved[j]? = some n
  /-- It stands in the plan. -/
  component : p.components[j]? = some (s.componentAt j n)
  /-- It is no proxy. -/
  notProxy : (s.componentAt j n).isProxy = false
  /-- It exposes the type. -/
  type_eq : (s.componentAt j n).type = t
  /-- It carries the tags claimed. -/
  tags_eq : (s.componentAt j n).tags = c.tags

/-- Only components from after `i` up to `j` need the one at `i`, each for one instance of exactly
its type. -/
structure Plan.UsedWithin (p : Plan) (t : TypeExpr) (i j : Nat) : Prop where
  /-- It is in no collection. -/
  collected : ∀ x ∈ p.components, ∀ c ts, .allOf c ts ∈ x.dependencies → ∀ y ∈ ts, y.index ≠ i
  /-- A component that needs it stands in between, and claims its type. -/
  single : ∀ (k : Nat) (x : Component), p.components[k]? = some x → ∀ e ∈ x.dependencies, ∀ y,
    e.target? = some y → y.index = i → e.claim.type = t ∧ i < k ∧ k ≤ j

namespace State

variable {r : Resolver} {c₀ : Catalog} {s : State} {c : Claim} {d : Source} {e : Edge} {n m : Node}
  {i j k id : Nat} {t : Target}

theorem Answered.exists_of_isProxy (h : s.Answered r c₀) (hn : n ∈ s.resolved)
    (hp : n.source.isProxy = true) :
    ∃ d ∈ s.catalog.sources, d.isProxy = false ∧ n.StandsFor r d n.source.type := by
  rcases h.finished n hn with hc | h
  · simp [hc.notProxy] at hp
  · exact h

/-- When the stack is empty, what is upcoming is finished. -/
theorem Upcoming.exists_position? {u : Universe} (h : s.Upcoming i id) (hi : s.Identified u)
    (hs : s.stack = []) : ∃ j, i ≤ j ∧ s.position? id = some j := by
  rcases h with h | ⟨j, n, hj, hn, e⟩
  · simp [hs] at h
  · exact ⟨j, hj, hi.position?_iff.2 ⟨n, hn, e⟩⟩

/-- An edge to a proxy claims one instance of its type. -/
theorem Settles.type_eq_of_isProxy (h : s.Settles r c₀ c e) (ht : e.target? = some t)
    (hm : s.resolved[t.index]? = some m) (hp : m.source.isProxy = true) :
    c.type = m.source.type := by
  cases h with
  | component hk hx =>
    rw [Edge.target?_single, Option.some.injEq] at ht
    obtain ⟨n, fit, hn, hnp, -⟩ := ht ▸ hx
    obtain rfl := Option.some.inj (hn.symm.trans hm)
    simp [hnp] at hp
  | proxy hk hx =>
    rw [Edge.target?_single, Option.some.injEq] at ht
    obtain ⟨n, hn, hsf, -⟩ := ht ▸ hx
    obtain rfl := Option.some.inj (hn.symm.trans hm)
    exact hsf.type_eq.symm
  | absent | every | token => cases ht

theorem Settles.provides_of_allOf {c' : Claim} {ts : List Target}
    (h : s.Settles r c₀ c (.allOf c' ts)) : ∀ t ∈ ts, s.Provides c' t := by
  generalize he : Edge.allOf c' ts = e at h
  cases h with
  | component | proxy =>
    have ht := congrArg Edge.target? he
    rw [Edge.target?_single] at ht
    cases ht
  | every hk ht =>
    cases he
    exact ht
  | absent | token => cases he

/-- Edges of finished components settle claims, or are deferred parameters. -/
theorem Answered.settles_of_mem (h : s.Answered r c₀) (hn : n ∈ s.resolved) (he : e ∈ n.edges) :
    s.Settles r c₀ e.claim e ∨ e.isProxyParameter = true := by
  rcases h.finished n hn with hc | ⟨d, -, -, hsf⟩
  · exact .inl (hc.settled e he)
  · rw [hsf.edges, List.mem_singleton] at he
    exact .inr (he ▸ rfl)

end State

namespace Resolver

variable {r : Resolver} {drafts : List Draft} {n round : Nat} {s : State} {c₀ : Catalog}

theorem Moves.bound (hm : Moves r (.start c₀) s) (hc : Declared r drafts c₀)
    (ho : ∀ d ∈ drafts, d.origin.isFound = true) : s.Bound r := by
  induction hm with
  | refl => exact State.bound_start c₀
  | tail hm h ih => exact ih.move (Moves.identified hm hc) (Moves.answered hm hc ho) h

/-- The deferred parameter of a proxy is bound to the component that it stands for. -/
theorem binds_of_standsFor {m : Node} {d : Source} {claimed : TypeExpr} {i j : Nat}
    (hi : s.Identified r.types) (hsf : m.StandsFor r d claimed) (hd : d ∈ s.catalog.sources)
    (hp : d.isProxy = false) (hj : s.position? d.id = some j) :
    ∃ n, (s.toPlan round).Binds s (s.componentAt i m) d.type d.forwardingClaim n j := by
  obtain ⟨n, hn, e⟩ := State.exists_of_position? hj
  obtain rfl : n.source = d := hi.source_eq (List.mem_of_getElem? hn)
    (Catalog.declares_of_mem hi.sound hd) e
  refine ⟨n, ?_, rfl, hn, ?_, hp, rfl, rfl⟩
  · rw [State.componentAt, hsf.edges, List.map_singleton, State.bindProxy, hj]
  · rw [State.getElem?_toPlan, hn, Option.map_some]

/-- **A proxy is used only by what is finished after it, and before what it stands for.** -/
theorem usedWithin_of_standsFor {m : Node} {d : Source} {i j : Nat} (hi : s.Identified r.types)
    (ha : s.Answered r c₀) (hb : s.Bound r) (hord : s.Ordered) (hs : s.stack = [])
    (hm : s.resolved[i]? = some m) (hsf : m.StandsFor r d m.source.type)
    (hj : s.position? d.id = some j) :
    (s.toPlan round).UsedWithin m.source.type i j where
  collected x hx c ts he y hy := by
    rintro rfl
    obtain ⟨k, hx⟩ := List.mem_iff_getElem?.1 hx
    obtain ⟨n, hn, rfl⟩ := State.exists_of_toPlan hx
    obtain ⟨e, hmem, he⟩ := List.mem_map.1 he
    obtain rfl : e = .allOf c ts := by cases e <;> simp_all [State.bindProxy]
    rcases ha.settles_of_mem (List.mem_of_getElem? hn) hmem with hset | hset
    · obtain ⟨m', fit, hm', hp, -⟩ := hset.provides_of_allOf y hy
      obtain rfl := Option.some.inj (hm.symm.trans hm')
      simp [hsf.isProxy] at hp
    · cases hset
  single k x hx e he y ht hy := by
    subst hy
    obtain ⟨n, hn, rfl⟩ := State.exists_of_toPlan hx
    obtain ⟨e, hmem, rfl⟩ := List.mem_map.1 he
    rw [Edge.target?_bindProxy] at ht
    rw [State.claim_bindProxy]
    have hy := Edge.mem_constructionTargets_of_target? ht
    refine ⟨?_, hord.finished k n hn e hmem _ hy, ?_⟩
    · rcases ha.settles_of_mem (List.mem_of_getElem? hn) hmem with hset | hset
      · exact hset.type_eq_of_isProxy ht hm hsf.isProxy
      · cases e <;> simp_all [Edge.isProxyParameter, Edge.target?]
    · obtain ⟨m', hm', h⟩ := hb.finished k n hn e hmem _ hy
      obtain rfl := Option.some.inj (hm.symm.trans hm')
      rcases h with h | ⟨d', hsf', hu⟩
      · simp [hsf.isProxy] at h
      · obtain ⟨j', hkj, hj'⟩ := hu.exists_position? hi hs
        rw [← hsf.id_eq hsf', hj, Option.some.injEq] at hj'
        omega

/-- A proxy is remembered under its type and the identity that its deferred parameter names. -/
theorem lookup_of_isProxy {m : Node} {c : Claim} {i id : Nat} {j : Option Nat}
    (ha : s.Answered r c₀) (hb : s.Bound r) (hm : s.resolved[i]? = some m)
    (hp : m.source.isProxy = true)
    (he : (s.componentAt i m).dependencies = [.proxyParameter c id j]) :
    s.proxies.lookup (m.source.type, id) = some i := by
  obtain ⟨d, -, -, hsf⟩ := ha.exists_of_isProxy (List.mem_of_getElem? hm) hp
  have hid : d.id = id := by
    rw [State.componentAt, hsf.edges] at he
    simp only [List.map_singleton, State.bindProxy, List.cons.injEq,
      Edge.proxyParameter.injEq] at he
    exact he.1.2.1
  rw [← hid]
  exact hb.remembered i m d hm hsf

/-- **Every proxy is bound, unique and used only inside its cycle.** -/
theorem proxies_are_bound (r : Resolver) (fuel : Nat) (drafts : List Draft) (round : Nat)
    (p : Plan) (ho : ∀ d ∈ drafts, d.origin.isFound = true)
    (h : r.resolve fuel drafts round = .ok (.resolved p)) :
    ∃ s, r.Completes fuel drafts round s ∧ p = s.toPlan round ∧
      (∀ (i : Nat) (q : Component) (t : TypeExpr), p.components[i]? = some q →
        q.origin = .promisedProxy t →
        ∃ c n j, i < j ∧ p.Binds s q t c n j ∧ p.UsedWithin q.type i j) ∧
      ∀ (i i' : Nat) (q q' : Component) (c c' : Claim) (id : Nat) (j j' : Option Nat),
        p.components[i]? = some q → p.components[i']? = some q' →
        q.isProxy = true → q'.isProxy = true → q.type = q'.type →
        q.dependencies = [.proxyParameter c id j] → q'.dependencies = [.proxyParameter c' id j'] →
        i = i' := by
  obtain ⟨s, hs, rfl⟩ := resolve_eq_resolved_iff.1 h
  obtain ⟨c₀, hc, hm⟩ := hs.reachable.moves
  have hi := hm.identified hc
  have ha := hm.answered hc ho
  have hb := hm.bound hc ho
  refine ⟨s, hs, rfl, fun i q t hq ht => ?_, ?_⟩
  · obtain ⟨m, hmn, rfl⟩ := State.exists_of_toPlan hq
    replace ht : m.source.origin = .promisedProxy t := ht
    obtain ⟨d, hd, hdp, hsf⟩ := ha.exists_of_isProxy (List.mem_of_getElem? hmn)
      (by rw [Draft.isProxy, ht])
    obtain ⟨j, hij, hj⟩ := (hb.upcoming i m d hmn hsf).exists_position? hi hs.stack
    obtain ⟨n, hbind⟩ := binds_of_standsFor (i := i) hi hsf hd hdp hj
    have e : t = d.type := by
      rw [hsf.origin_eq, Origin.promisedProxy.injEq] at ht
      exact ht.symm
    refine ⟨d.forwardingClaim, n, j, hij, e ▸ hbind, ?_⟩
    exact usedWithin_of_standsFor hi ha hb (hm.ordered) hs.stack hmn hsf hj
  · intro i i' q q' c c' id j j' hq hq' hp hp' ht he he'
    obtain ⟨m, hm, rfl⟩ := State.exists_of_toPlan hq
    obtain ⟨m', hm', rfl⟩ := State.exists_of_toPlan hq'
    have hl := lookup_of_isProxy ha hb hm hp he
    have hl' := lookup_of_isProxy ha hb hm' hp' he'
    rw [← show m.source.type = m'.source.type from ht, hl] at hl'
    exact Option.some.inj hl'

theorem proxies_are_bound_ring : ∃ s p q t, ring.resolve 50 ringDrafts 0 = .ok (.resolved p) ∧
    p.components[0]? = some q ∧ q.origin = .promisedProxy t ∧
      ∃ c n j, 0 < j ∧ p.Binds s q t c n j ∧ p.UsedWithin q.type 0 j := by
  obtain ⟨p, hp, hq⟩ := exists_plan (x := ring.resolve 50 ringDrafts 0)
    (fun p => (p.components[0]?.map Component.origin) == some (.promisedProxy (.named "Hub" [])))
    (by decide +kernel)
  obtain ⟨q, hq, ht⟩ := Option.map_eq_some_iff.1 (beq_iff_eq.1 hq)
  obtain ⟨s, -, -, h, -⟩ := proxies_are_bound ring 50 ringDrafts 0 p (by decide) hp
  exact ⟨s, p, q, _, hp, hq, ht, h 0 q _ hq ht⟩

end Resolver

end Wiring
