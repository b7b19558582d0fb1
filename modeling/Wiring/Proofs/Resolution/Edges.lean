import Wiring.Proofs.Resolution.Identity
/-!
# Every edge answers its claim

The edges of a component in progress, together with the claims that are still pending, are always
the claims of its declaration in order, and each edge settles its claim in one of the ways that
`State.Settles` lists. What settles a claim keeps doing so while the state grows, so it does in the
plan.

The edge that a broken cycle leaves behind is made for a component that was already in progress. It
settles the claim it is made for because that component was started for this claim, and for no
other (`Frame.Grounded.of_mem`).

* `State.Answered.move`: moves keep all claims answered.
* `Resolver.edges_answer_claims` says what this means for a plan.
-/

namespace Wiring

/-! ## Proxies -/

/-- Whether a declaration of this origin can be found: a resolution makes those of other origins
itself. -/
def Origin.isFound : Origin → Bool
  | .annotated | .factory _ | .extension _ => true
  | .optional | .promisedProxy _ | .discoveredFinal | .templateInstance _ _ => false

theorem Draft.isProxy_of_isFound {d : Draft} (h : d.origin.isFound = true) : d.isProxy = false := by
  cases e : d.origin <;> simp_all [Origin.isFound, isProxy]

/-- The component is a proxy that stands for a declaration where a type is claimed. -/
structure Node.StandsFor (r : Resolver) (n : Node) (d : Source) (claimed : TypeExpr) : Prop where
  /-- It was declared as such. -/
  declared : ∃ id, n.source.toDeclaration = (r.proxyDraft d claimed).declare id
  /-- It waits for the declaration. -/
  edges : n.edges = [.proxyParameter d.forwardingClaim d.id none]

namespace Node.StandsFor

variable {r : Resolver} {n : Node} {d : Source} {claimed : TypeExpr}

theorem type_eq (h : n.StandsFor r d claimed) : n.source.type = claimed := by
  obtain ⟨id, e⟩ := h.declared
  rw [e]
  exact claimed.bind_nil

theorem origin_eq (h : n.StandsFor r d claimed) : n.source.origin = .promisedProxy d.type := by
  obtain ⟨id, e⟩ := h.declared
  rw [e]
  rfl

theorem isProxy (h : n.StandsFor r d claimed) : n.source.isProxy = true := by
  rw [Draft.isProxy, h.origin_eq]

theorem claims_eq (h : n.StandsFor r d claimed) : n.source.claims = [d.forwardingClaim] := by
  obtain ⟨id, e⟩ := h.declared
  rw [e]
  exact congrArg (fun c => [c]) d.forwardingClaim.bind_nil

/-- A proxy stands for one declaration only. -/
theorem id_eq {d' : Source} {claimed' : TypeExpr} (h : n.StandsFor r d claimed)
    (h' : n.StandsFor r d' claimed') : d.id = d'.id := by
  have e := h.edges.symm.trans h'.edges
  simp only [List.cons.injEq, Edge.proxyParameter.injEq] at e
  exact e.1.2.1

end Node.StandsFor

/-! ## What settles a claim -/

namespace State

/-- The component at the target satisfies the claim in the way that the target says. -/
def Provides (s : State) (c : Claim) (t : Target) : Prop :=
  ∃ n fit, s.resolved[t.index]? = some n ∧ n.source.isProxy = false ∧
    n.source.fit? c = some fit ∧ fit.target t.index = t

/-- The component at the target is a proxy for a declaration that satisfies the claim. -/
def Represents (r : Resolver) (s : State) (d : Source) (c : Claim) (t : Target) : Prop :=
  ∃ n, s.resolved[t.index]? = some n ∧ n.StandsFor r d c.type ∧ d ∈ s.catalog.sources ∧
    d.isProxy = false ∧ d.Fits c ∧ (r.types.kind c.type).isSubstitutable = true ∧ t.unwrap = false

/-- The edge settles the claim. What may be absent is said about the catalog `c₀` of the drafts. -/
inductive Settles (r : Resolver) (c₀ : Catalog) (s : State) (c : Claim) : Edge → Prop
  /-- By a component. -/
  | component {t : Target} (hk : c.kind.isSingle = true) (ht : s.Provides c t) :
      Settles r c₀ s c (.single c t)
  /-- By a proxy. -/
  | proxy {d : Source} {t : Target} (hk : c.kind.isSingle = true) (ht : s.Represents r d c t) :
      Settles r c₀ s c (.single c t)
  /-- By absence: no declaration satisfies the claim, and no template can. -/
  | absent (hk : c.kind.isNullable = true) (hd : ∀ d ∈ c₀.sources, ¬ d.Fits c)
      (ht : ∀ t ∈ c₀.templates, c.tags.Accepts t.tags → ¬ r.types.Unifies t.type c.type) :
      Settles r c₀ s c (.absent c)
  /-- By a collection of components. -/
  | every {ts : List Target} (hk : c.kind.isAll = true) (ht : ∀ t ∈ ts, s.Provides c t) :
      Settles r c₀ s c (.allOf c ts)
  /-- By a token. -/
  | token (hk : c.kind = .typeRef) : Settles r c₀ s c (.typeToken c)

variable {r : Resolver} {c₀ : Catalog} {s t : State} {c : Claim} {x : Target} {d : Source}
  {e : Edge}

theorem Provides.mono (h : s.Provides c x) (hg : s.Grows t) : t.Provides c x := by
  obtain ⟨n, fit, hn, h⟩ := h
  exact ⟨n, fit, hg.getElem? hn, h⟩

theorem Represents.mono (h : s.Represents r d c x) (hg : s.Grows t) : t.Represents r d c x := by
  obtain ⟨n, hn, hs, hd, h⟩ := h
  exact ⟨n, hg.getElem? hn, hs, hg.catalog.sources.mem hd, h⟩

theorem Settles.mono (h : s.Settles r c₀ c e) (hg : s.Grows t) : t.Settles r c₀ c e := by
  cases h with
  | component hk ht => exact .component hk (ht.mono hg)
  | proxy hk ht => exact .proxy hk (ht.mono hg)
  | absent hk hd ht => exact .absent hk hd ht
  | every hk ht => exact .every hk fun x hx => (ht x hx).mono hg
  | token hk => exact .token hk

theorem Settles.claim_eq (h : s.Settles r c₀ c e) : e.claim = c := by
  cases h with
  | component hk ht => exact Edge.claim_single c _
  | proxy hk ht => exact Edge.claim_single c _
  | absent | every | token => rfl

theorem provides_of_mem {m : Match} (h : m ∈ s.resolvedMatches c) : s.Provides c m.target := by
  obtain ⟨n, hn, hp, hf⟩ := exists_of_mem_resolvedMatches h
  exact ⟨n, m.fit, hn, hp, hf, rfl⟩

theorem provides_of_position? {i : Nat} {fit : Fit} (hi : s.Identified r.types)
    (hd : d ∈ s.declaredMatches c) (hp : s.position? d.id = some i) (hf : d.fit? c = some fit) :
    s.Provides c (fit.target i) := by
  obtain ⟨n, hn, e⟩ := exists_of_position? hp
  obtain ⟨hd, hpd, -⟩ := mem_sources_of_mem_declaredMatches hd
  obtain rfl : n.source = d := hi.source_eq (List.mem_of_getElem? hn)
    (Catalog.declares_of_mem hi.sound hd) e
  exact ⟨n, fit, hn, hpd, hf, rfl⟩

/-- **What answers a claim settles it.** -/
theorem settles_of_answers (hi : s.Identified r.types) (hc : c₀.Extends s.catalog)
    (hp : ∀ d ∈ c₀.sources, d.isProxy = false) (h : Resolver.Answers r s c e) :
    s.Settles r c₀ c e := by
  cases h with
  | finished hk hm => exact .component hk (provides_of_mem hm)
  | declared hk hd hpos hf => exact .component hk (provides_of_position? hi hd hpos hf)
  | absent hk hd ht =>
    refine .absent hk (fun d hd' hf => ?_) fun t ht' => ht t (hc.templates.mem ht')
    have hm := (mem_declaredMatches hi.sound).2 ⟨hc.sources.mem hd', hp d hd', hf⟩
    rw [hd] at hm
    cases hm
  | every hk ha =>
    refine .every hk fun t ht => ?_
    obtain ⟨m, hm, rfl⟩ := List.mem_map.1 ht
    exact provides_of_mem hm
  | token hk => exact .token hk

/-- The components that answer a claim are no proxies. -/
theorem provides_of_answers (hi : s.Identified r.types) (h : Resolver.Answers r s c e) {i : Nat}
    (ht : i ∈ e.constructionTargets) : ∃ x, x.index = i ∧ s.Provides c x := by
  cases h with
  | finished hk hm =>
    rw [Edge.constructionTargets_single, List.mem_singleton] at ht
    exact ⟨_, ht.symm, provides_of_mem hm⟩
  | declared hk hd hpos hf =>
    rw [Edge.constructionTargets_single, List.mem_singleton] at ht
    exact ⟨_, ht.symm, provides_of_position? hi hd hpos hf⟩
  | every hk ha =>
    obtain ⟨x, hx, rfl⟩ := List.mem_map.1 ht
    obtain ⟨m, hm, rfl⟩ := List.mem_map.1 hx
    exact ⟨_, rfl, provides_of_mem hm⟩
  | absent | token => cases ht

/-! ## All claims are answered -/

/-- The edges settle the claims of the declaration, in order, up to those that are pending. -/
structure Covers (r : Resolver) (c₀ : Catalog) (s : State) (d : Source) (es : List Edge)
    (pending : List Claim) : Prop where
  /-- The declaration is not a proxy. -/
  notProxy : d.isProxy = false
  /-- The claims of the edges, and those that are pending, are the claims of the declaration. -/
  claims : es.map Edge.claim ++ pending = d.claims
  /-- Each edge settles its claim. -/
  settled : ∀ e ∈ es, s.Settles r c₀ e.claim e

/-- The claims of finished components are answered, and so are the first claims of components in
progress. -/
structure Answered (r : Resolver) (c₀ : Catalog) (s : State) : Prop where
  /-- A finished component has answers to its claims, or is a proxy. -/
  finished : ∀ n ∈ s.resolved, s.Covers r c₀ n.source n.edges [] ∨
    ∃ d ∈ s.catalog.sources, d.isProxy = false ∧ n.StandsFor r d n.source.type
  /-- A component in progress has answers to its first claims. -/
  inProgress : ∀ f, .component f ∈ s.stack → s.Covers r c₀ f.source f.edges f.pending
  /-- What is remembered as a proxy is one. -/
  proxies : ∀ x ∈ s.proxies, ∃ n d, s.resolved[x.2]? = some n ∧ d ∈ s.catalog.sources ∧
    d.id = x.1.2 ∧ n.StandsFor r d x.1.1
  /-- Proxies are finished at once. -/
  bypassed : ∀ d ∈ s.catalog.sources, d.isProxy = true → s.isResolved d.id = true

variable {f w : ComponentFrame} {below stack : List Frame} {es : List Edge} {pending : List Claim}
  {catalog : Catalog} {draft : Draft}

theorem Covers.mono (h : s.Covers r c₀ d es pending) (hg : s.Grows t) :
    t.Covers r c₀ d es pending :=
  ⟨h.notProxy, h.claims, fun e he => (h.settled e he).mono hg⟩

theorem covers_start (hd : d.isProxy = false) : s.Covers r c₀ d [] d.claims :=
  ⟨hd, rfl, by simp⟩

/-- One more claim is settled. -/
theorem Covers.answer (h : s.Covers r c₀ d es (c :: pending)) (he : s.Settles r c₀ c e) :
    s.Covers r c₀ d (es ++ [e]) pending where
  notProxy := h.notProxy
  claims := by
    rw [← h.claims, List.map_append, List.append_assoc, List.map_singleton, he.claim_eq]
    rfl
  settled x hx := by
    rcases List.mem_append.1 hx with hx | hx
    · exact h.settled x hx
    · rwa [List.mem_singleton.1 hx, he.claim_eq]

theorem answered_start (hp : ∀ d ∈ c₀.sources, d.isProxy = false) : (start c₀).Answered r c₀ where
  finished := by simp [start]
  inProgress := by simp [start]
  proxies := by simp [start]
  bypassed d hd h := by simp [hp d hd] at h

/-- After a state has grown, only what is new need be looked at. -/
theorem Answered.grow (h : s.Answered r c₀) (hg : s.Grows t)
    (hn : ∀ n ∈ t.resolved, n ∈ s.resolved ∨ t.Covers r c₀ n.source n.edges [] ∨
      ∃ d ∈ t.catalog.sources, d.isProxy = false ∧ n.StandsFor r d n.source.type)
    (hf : ∀ f, .component f ∈ t.stack →
      .component f ∈ s.stack ∨ t.Covers r c₀ f.source f.edges f.pending)
    (hx : ∀ x ∈ t.proxies, x ∈ s.proxies ∨ ∃ n d, t.resolved[x.2]? = some n ∧
      d ∈ t.catalog.sources ∧ d.id = x.1.2 ∧ n.StandsFor r d x.1.1)
    (hb : ∀ d ∈ t.catalog.sources, d.isProxy = true →
      d ∈ s.catalog.sources ∨ t.isResolved d.id = true) : t.Answered r c₀ where
  finished n hm := by
    rcases hn n hm with hm | hm
    · rcases h.finished n hm with h | ⟨d, hd, h⟩
      · exact .inl (h.mono hg)
      · exact .inr ⟨d, hg.catalog.sources.mem hd, h⟩
    · exact hm
  inProgress f hm := by
    rcases hf f hm with hm | hm
    · exact (h.inProgress f hm).mono hg
    · exact hm
  proxies x hm := by
    rcases hx x hm with hm | hm
    · obtain ⟨n, d, hn, hd, h⟩ := h.proxies x hm
      exact ⟨n, d, hg.getElem? hn, hg.catalog.sources.mem hd, h⟩
    · exact hm
  bypassed d hd hp := by
    rcases hb d hd hp with hd | hd
    · exact hg.isResolved (h.bypassed d hd hp)
    · exact hd

/-- The stack is replaced by one whose frames are from before, or have answers. -/
theorem Answered.withStack (h : s.Answered r c₀)
    (hf : ∀ f, .component f ∈ stack →
      .component f ∈ s.stack ∨ s.Covers r c₀ f.source f.edges f.pending) :
    { s with stack }.Answered r c₀ := by
  have hg : s.Grows { s with stack } := ⟨List.prefix_rfl, .refl _⟩
  refine h.grow hg (fun _ => .inl) (fun g hm => ?_) (fun _ => .inl) fun _ hd _ => .inl hd
  exact (hf g hm).imp_right fun hc => hc.mono hg

theorem Answered.tail {frame : Frame} (h : s.Answered r c₀) (hs : s.stack = frame :: below) :
    { s with stack := below }.Answered r c₀ :=
  h.withStack fun _ hf => .inl (hs ▸ List.mem_cons_of_mem _ hf)

/-- The first pending claim of the frame on top is settled. -/
theorem Answered.answer {cs : List Claim} (h : s.Answered r c₀)
    (hs : s.stack = .component w :: below) (hw : w.pending = c :: cs)
    (he : s.Settles r c₀ c e) :
    { s with stack := .component (w.answer e) :: below }.Answered r c₀ := by
  refine h.withStack fun f hf => ?_
  rcases List.mem_cons.1 hf with hf | hf
  · cases hf
    have hc := h.inProgress w (by simp [hs])
    rw [hw] at hc
    refine .inr ?_
    rw [ComponentFrame.answer, hw]
    exact hc.answer he
  · exact .inl (by simp [hs, hf])

theorem Answered.push (h : s.Answered r c₀) (hd : d.isProxy = false) :
    (s.push d).Answered r c₀ := by
  refine h.withStack fun _ hf => (mem_push hf).imp_right fun ⟨x, hx, e⟩ => ?_
  cases e
  refine covers_start ?_
  rcases hx with rfl | hx
  · exact hd
  · -- Proxies are finished, so none is among the interceptors that are started.
    obtain ⟨hx, -, hr, -⟩ := mem_wrapping hx
    exact eq_false_of_ne_true fun hp => by simp [h.bypassed x hx hp] at hr

theorem Answered.commit (h : s.Answered r c₀) (hd : s.Covers r c₀ d es []) :
    (s.commit d es).Answered r c₀ := by
  have hg := grows_commit s d es
  refine h.grow hg (fun n hn => ?_) (fun _ => .inl) (fun _ => .inl) fun _ hd _ => .inl hd
  rcases List.mem_append.1 hn with hn | hn
  · exact .inl hn
  · rw [List.mem_singleton.1 hn]
    exact .inr (.inl (hd.mono hg))

/-- What is declared later is no proxy. -/
theorem Answered.withCatalog (h : s.Answered r c₀) (ha : s.catalog.Added r.types draft catalog)
    (hd : draft.isProxy = false) : { s with catalog }.Answered r c₀ := by
  have hg : s.Grows { s with catalog } := ⟨List.prefix_rfl, ha.extends⟩
  refine h.grow hg (fun _ => .inl) (fun _ => .inl) (fun _ => .inl) fun x hx hp => ?_
  refine .inl ((ha.mem_sources hx).resolve_right fun e => ?_)
  have : x.isProxy = draft.isProxy := congrArg (fun d => d.toDraft.isProxy) e
  rw [this, hd] at hp
  cases hp

/-- A proxy is finished for a declaration. -/
theorem Answered.forwarded {n : Nat} {proxy : Source} {claimed : TypeExpr} (h : s.Answered r c₀)
    (hd : d ∈ s.catalog.sources) (hp : d.isProxy = false)
    (hr : s.catalog.registerSource? r.types n (r.proxyDraft d claimed) = some (proxy, catalog)) :
    (s.forwarded catalog proxy d claimed).Answered r c₀ := by
  obtain ⟨-, e, ha⟩ := Catalog.added_of_registerSource? hr
  have hg : s.Grows (s.forwarded catalog proxy d claimed) := grows_forwarded ha
  have hs : Node.StandsFor r ⟨proxy, [.proxyParameter d.forwardingClaim d.id none]⟩ d claimed :=
    ⟨⟨_, e⟩, rfl⟩
  refine h.grow hg (fun n hn => ?_) (fun _ => .inl) (fun x hx => ?_) fun x hx _ => ?_
  · rcases List.mem_append.1 hn with hn | hn
    · exact .inl hn
    · rw [List.mem_singleton.1 hn]
      refine .inr (.inr ⟨d, hg.catalog.sources.mem hd, hp, ?_⟩)
      rwa [hs.type_eq]
  · rcases List.mem_cons.1 hx with rfl | hx
    · exact .inr ⟨_, d, List.getElem?_concat_length, hg.catalog.sources.mem hd, rfl, hs⟩
    · exact .inl hx
  · exact mem_or_isResolved_of_forwarded ha e hx

end State

open Resolver in
/-- What is declared on the fly for a claim is no proxy. -/
theorem Resolver.Supplies.isProxy {r : Resolver} {s : State} {c : Claim} {draft : Draft}
    (h : Supplies r s c draft) : draft.isProxy = false := by
  cases h <;> rfl

namespace State

open Resolver

variable {r : Resolver} {c₀ : Catalog} {s t : State}

/-- **A move keeps all claims answered.** -/
theorem Answered.move (h : s.Answered r c₀) (hi : s.Identified r.types)
    (hc : c₀.Extends s.catalog) (hp : ∀ d ∈ c₀.sources, d.isProxy = false) (hm : r.Move s t) :
    t.Answered r c₀ := by
  cases hm with
  | skip hs hd => exact h.tail hs
  | @expand d below hs hd =>
    cases hi.top hs with
    | root hd' hb =>
      refine (h.tail hs).push (eq_false_of_ne_true fun hdp => ?_)
      simp [h.bypassed d hd' hdp] at hd
  | @forward f w below c cs n proxy catalog hs hw hf hk ht hl hr =>
    obtain ⟨hd, hdp, -⟩ := (hi.top hs).of_mem hw hf
    exact h.forwarded hd hdp hr
  | @bypass f w below c cs i hs hw hf hk ht hl =>
    obtain ⟨hd, hdp, hfit⟩ := (hi.top hs).of_mem hw hf
    -- The proxy that is remembered stands for the declaration of the frame.
    obtain ⟨n, d, hn, hd', hid, hsf⟩ := h.proxies _ (mem_of_lookup hl)
    obtain rfl : d = f.source := (Catalog.declares_of_mem hi.sound hd').ext hi.sound
      (Catalog.declares_of_mem hi.sound hd) hid
    have hr : State.Represents r { s with stack := .component w :: below } f.source c ⟨i, false⟩ :=
      ⟨n, hn, hsf, hd, hdp, hfit, ht, rfl⟩
    exact (h.tail hs).answer rfl hw (.proxy hk hr)
  | @commit f below hs hb hf =>
    have hc := (h.inProgress f (by simp [hs])).mono (t := { s with stack := below })
      ⟨List.prefix_rfl, .refl _⟩
    rw [hf] at hc
    exact (h.tail hs).commit hc
  | answer hs hb hf he => exact h.answer hs hf (settles_of_answers hi hc hp he)
  | await hs hb hf hd => exact h.push (mem_sources_of_mem_declaredMatches hd.declared).2.1
  | @supply f below c cs n draft d catalog hs hb hf hn hd hr =>
    obtain ⟨-, e, ha⟩ := Catalog.added_of_registerSource? hr
    refine (h.withCatalog ha hd.isProxy).push ?_
    exact (congrArg Draft.isProxy (congrArg Declaration.toDraft e)).trans hd.isProxy
  | extend hr => exact h.withCatalog (Catalog.added_of_register? hr).2 rfl
  | nest depth =>
    exact h.grow ⟨List.prefix_rfl, .refl _⟩ (fun _ => .inl) (fun _ => .inl) (fun _ => .inl)
      fun _ hd _ => .inl hd

end State

/-! ## The edges of a plan -/

/-- Whether the component is a proxy. -/
def Component.isProxy (q : Component) : Bool :=
  match q.origin with
  | .promisedProxy _ => true
  | _ => false

@[simp] theorem State.isProxy_componentAt (s : State) (i : Nat) (n : Node) :
    (s.componentAt i n).isProxy = n.source.isProxy := rfl

namespace Resolver

/-- The component serves a claim on one instance, with the value inside it or without. -/
inductive Serves (r : Resolver) (s : State) (c : Claim) : (q : Component) → (unwrap : Bool) → Prop
  /-- Its type can be used as the claimed one. -/
  | direct {q : Component} (hq : q.isProxy = false) (hc : c.tags.Accepts q.tags)
      (ht : r.types.Reaches q.type c.type) : Serves r s c q false
  /-- Its type cannot, but that of the value inside it can. -/
  | unwrapped {q : Component} (hq : q.isProxy = false) (hc : c.tags.Accepts q.tags)
      (ht : ¬ r.types.Reaches q.type c.type) (hw : r.types.Wraps q.type c.type) :
      Serves r s c q true
  /-- It is a proxy of the claimed type, for a declaration that satisfies the claim. -/
  | proxy {q : Component} {d : Source} {i : Option Nat} (hq : q.origin = .promisedProxy d.type)
      (he : q.dependencies = [.proxyParameter d.forwardingClaim d.id i]) (ht : q.type = c.type)
      (hk : (r.types.kind c.type).isSubstitutable = true) (hd : d ∈ s.catalog.sources)
      (hf : d.toDeclaration.Satisfies r.types c) : Serves r s c q false

/-- The edge of a plan fulfils its claim. -/
inductive Fulfils (r : Resolver) (drafts : List Draft) (s : State) (p : Plan) : Edge → Prop
  /-- A single instance serves the claim. -/
  | reference {c : Claim} {t : Target} {q : Component} (hk : c.kind.isSingle = true)
      (hh : c.kind.handle = .plain) (hq : p.components[t.index]? = some q)
      (ht : r.Serves s c q t.unwrap) : Fulfils r drafts s p (.reference c t)
  /-- A single instance serves the claim, behind a live handle. -/
  | valueOf {c : Claim} {t : Target} {q : Component} (hk : c.kind.isSingle = true)
      (hh : c.kind.handle = .value) (hq : p.components[t.index]? = some q)
      (ht : r.Serves s c q t.unwrap) : Fulfils r drafts s p (.valueOf c t)
  /-- A single instance serves the claim, behind a lazy handle. -/
  | promiseOf {c : Claim} {t : Target} {q : Component} (hk : c.kind.isSingle = true)
      (hh : c.kind.handle = .promise) (hq : p.components[t.index]? = some q)
      (ht : r.Serves s c q t.unwrap) : Fulfils r drafts s p (.promiseOf c t)
  /-- The claim is nullable, no draft satisfies it and no template among the drafts can. -/
  | absent {c : Claim} (hk : c.kind.isNullable = true)
      (hd : ∀ (k : Nat) (d : Draft), drafts[k]? = some d → d.isTemplate = false →
        ¬ (d.declare k).Satisfies r.types c)
      (ht : ∀ (k : Nat) (d : Draft), drafts[k]? = some d → d.isTemplate = true →
        c.tags.Accepts d.tags → ¬ r.types.Unifies (d.declare k).type c.type) :
      Fulfils r drafts s p (.absent c)
  /-- Each of the instances collected serves the claim, and none is a proxy. -/
  | allOf {c : Claim} {ts : List Target} (hk : c.kind.isAll = true)
      (ht : ∀ t ∈ ts, ∃ q, p.components[t.index]? = some q ∧ q.isProxy = false ∧
        r.Serves s c q t.unwrap) : Fulfils r drafts s p (.allOf c ts)
  /-- The claim asks for a token. -/
  | typeToken {c : Claim} (hk : c.kind = .typeRef) : Fulfils r drafts s p (.typeToken c)

variable {r : Resolver} {drafts : List Draft} {n round : Nat} {s : State} {p : Plan} {c₀ : Catalog}
  {c : Claim} {t : Target} {d : Source} {e : Edge}

theorem serves_of_provides (hi : s.Identified r.types) (h : s.Provides c t) :
    ∃ q, (s.toPlan round).components[t.index]? = some q ∧ q.isProxy = false ∧
      r.Serves s c q t.unwrap := by
  obtain ⟨n, fit, hn, hp, hf, ht⟩ := h
  obtain ⟨hl, -⟩ := hi.declared n (List.mem_of_getElem? hn)
  refine ⟨s.componentAt t.index n, by rw [State.getElem?_toPlan, hn, Option.map_some], hp, ?_⟩
  rw [← ht]
  cases fit with
  | direct =>
    obtain ⟨ha, hm⟩ := Source.fit?_eq_direct.1 hf
    exact .direct hp ha (hl.mem_ownTypes.1 hm)
  | unwrapped =>
    obtain ⟨ha, hm, hm'⟩ := Source.fit?_eq_unwrapped.1 hf
    exact .unwrapped hp ha (fun hr => hm (hl.mem_ownTypes.2 hr)) (hl.mem_innerTypes.1 hm')

theorem serves_of_represents (hi : s.Identified r.types) (h : s.Represents r d c t) :
    ∃ q, (s.toPlan round).components[t.index]? = some q ∧ r.Serves s c q t.unwrap := by
  obtain ⟨n, hn, hsf, hd, hp, hf, hk, ht⟩ := h
  refine ⟨s.componentAt t.index n, by rw [State.getElem?_toPlan, hn, Option.map_some], ?_⟩
  have he : (s.componentAt t.index n).dependencies =
      [.proxyParameter d.forwardingClaim d.id (s.position? d.id)] := by
    rw [State.componentAt, hsf.edges]
    rfl
  rw [ht]
  exact .proxy hsf.origin_eq he hsf.type_eq hk hd ((hi.sound.listed d hd).fits_iff.1 hf)

theorem fulfils_single {q : Component} (hk : c.kind.isSingle = true)
    (hq : p.components[t.index]? = some q) (ht : r.Serves s c q t.unwrap) :
    Fulfils r drafts s p (.single c t) := by
  unfold Edge.single
  split <;> rename_i hh
  · exact .reference hk hh hq ht
  · exact .valueOf hk hh hq ht
  · exact .promiseOf hk hh hq ht

/-- **What settles a claim in the last state fulfils it in the plan.** -/
theorem fulfils_of_settles (hi : s.Identified r.types) (hc : Declared r drafts c₀)
    (h : s.Settles r c₀ c e) : Fulfils r drafts s (s.toPlan round) (s.bindProxy e) := by
  have hb (t : Target) : s.bindProxy (.single c t) = .single c t := by
    unfold Edge.single
    split <;> rfl
  cases h with
  | component hk ht =>
    obtain ⟨q, hq, -, ht⟩ := serves_of_provides hi ht
    rw [hb]
    exact fulfils_single hk hq ht
  | proxy hk ht =>
    obtain ⟨q, hq, ht⟩ := serves_of_represents hi ht
    rw [hb]
    exact fulfils_single hk hq ht
  | absent hk hd ht =>
    refine .absent hk (fun k d hk hdt hs => ?_) fun k d hk hdt => ht _ (hc.mem_templates hk hdt)
    obtain ⟨x, hx, e⟩ := hc.exists_source hk hdt
    rw [← e] at hs
    exact hd x hx ((hc.sound.listed x hx).fits_iff.2 hs)
  | every hk ht => exact .allOf hk fun t hm => serves_of_provides hi (ht t hm)
  | token hk => exact .typeToken hk

/-- If the drafts are declarations that can be found, then there are no proxies in their catalog. -/
theorem Declared.isProxy (h : Declared r drafts c₀) (ho : ∀ d ∈ drafts, d.origin.isFound = true) :
    ∀ x ∈ c₀.sources, x.isProxy = false := by
  intro x hx
  obtain ⟨k, d, hk, e⟩ := h.exists_draft hx
  have : x.isProxy = d.isProxy := congrArg (fun d => d.toDraft.isProxy) e
  rw [this, Draft.isProxy_of_isFound (ho d (List.mem_of_getElem? hk))]

theorem Moves.answered (hm : Moves r (.start c₀) s) (hc : Declared r drafts c₀)
    (ho : ∀ d ∈ drafts, d.origin.isFound = true) : s.Answered r c₀ := by
  have hp := hc.isProxy ho
  induction hm with
  | refl => exact State.answered_start hp
  | tail hm h ih => exact ih.move (Moves.identified hm hc) (Moves.grows hm).catalog hp h

/-- **Every edge answers its claim.** A component of a plan has one edge for each claim of its
declaration, in order. The edges of a component that is no proxy fulfil these claims; a proxy has
its deferred parameter only. -/
theorem edges_answer_claims (r : Resolver) (fuel : Nat) (drafts : List Draft) (round : Nat)
    (p : Plan) (ho : ∀ d ∈ drafts, d.origin.isFound = true)
    (h : r.resolve fuel drafts round = .ok (.resolved p)) :
    ∃ s, r.Completes fuel drafts round s ∧ p = s.toPlan round ∧
      ∀ (i : Nat) (q : Component), p.components[i]? = some q →
        ∃ n, s.resolved[i]? = some n ∧ q = s.componentAt i n ∧
          q.dependencies.map Edge.claim = n.source.claims ∧
          (q.isProxy = false → ∀ e ∈ q.dependencies, r.Fulfils drafts s p e) ∧
          (q.isProxy = true → ∃ c d t, q.dependencies = [.proxyParameter c d t]) := by
  obtain ⟨s, hs, rfl⟩ := resolve_eq_resolved_iff.1 h
  obtain ⟨c₀, hc, hm⟩ := hs.reachable.moves
  have hi := hm.identified hc
  refine ⟨s, hs, rfl, fun i q hq => ?_⟩
  obtain ⟨n, hn, rfl⟩ := State.exists_of_toPlan hq
  have hclaims : (s.componentAt i n).dependencies.map Edge.claim = n.edges.map Edge.claim := by
    simp [State.componentAt]
  refine ⟨n, hn, rfl, ?_⟩
  rw [hclaims]
  rcases (hm.answered hc ho).finished n (List.mem_of_getElem? hn) with hcov | ⟨d, -, -, hsf⟩
  · refine ⟨by simpa using hcov.claims, fun _ e he => ?_, fun hp => ?_⟩
    · obtain ⟨x, hx, rfl⟩ := List.mem_map.1 he
      exact fulfils_of_settles hi hc (hcov.settled x hx)
    · simp [hcov.notProxy] at hp
  · refine ⟨?_, fun hp => ?_, fun _ => ⟨d.forwardingClaim, d.id, s.position? d.id, ?_⟩⟩
    · rw [hsf.edges, hsf.claims_eq]
      rfl
    · simp [hsf.isProxy] at hp
    · rw [State.componentAt, hsf.edges]
      rfl

theorem edges_answer_claims_ring : ∃ s p, ring.resolve 50 ringDrafts 0 = .ok (.resolved p) ∧
    p.size = 4 ∧ ∀ (i : Nat) (q : Component), p.components[i]? = some q →
      ∃ n, s.resolved[i]? = some n ∧ q.dependencies.map Edge.claim = n.source.claims ∧
        (q.isProxy = false → ∀ e ∈ q.dependencies, ring.Fulfils ringDrafts s p e) := by
  obtain ⟨p, hp, hsize⟩ := exists_plan (x := ring.resolve 50 ringDrafts 0) (·.size == 4)
    (by decide +kernel)
  obtain ⟨s, -, -, h⟩ := edges_answer_claims ring 50 ringDrafts 0 p (by decide) hp
  refine ⟨s, p, hp, by simpa using hsize, fun i q hq => ?_⟩
  obtain ⟨n, hn, -, hc, hf, -⟩ := h i q hq
  exact ⟨n, hn, hc, hf⟩

end Resolver

end Wiring
