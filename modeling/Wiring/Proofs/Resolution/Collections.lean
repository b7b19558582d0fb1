import Wiring.Proofs.Resolution.Cycles
import Wiring.Proofs.Resolution.Index
import Wiring.Proofs.Resolution.Provenance
import Wiring.Proofs.Resolution.Proxies
/-!
# Collections are complete

A claim on every match suspends its component once for each match that is still to be built, and is
answered when there is none left. The look-up that answers it then finds the match of every draft
that is neither a template nor a default, and what it finds stays where it is, whatever is resolved
later. `State.Exhausts` says what is known of a collection, and `State.Collected.move` that moves
keep it.

A component that satisfies its own claim on every match is a match that is never built: it is in
progress as long as its claim is pending. So no plan has it, unless it is a default, or was declared
as a template because its type has a variable (`Resolver.template_satisfies_own_collection`).

* `Resolver.step_of_isAll`: such a claim is neither reported as unresolved or ambiguous, nor does it
  lead to a fork.
* `Resolver.collections_are_complete` says what this means for a plan.
-/

namespace Wiring

open Resolver

/-! ## Templates are kept apart -/

/-- Only templates are filed as templates. -/
def Catalog.Filed (c : Catalog) : Prop := ∀ d ∈ c.templates, d.isTemplate = true

theorem Catalog.Added.filed {u : Universe} {c c' : Catalog} {d : Draft} (h : c.Added u d c')
    (hc : c.Filed) : c'.Filed := by
  cases h with
  | template ht =>
    intro x hx
    rcases List.mem_append.1 hx with hx | hx
    · exact hc x hx
    · rwa [List.mem_singleton.1 hx]
  | source => exact hc

/-- What is declared and is no template is a source. -/
theorem Catalog.Declares.mem_sources {u : Universe} {c : Catalog} {x : Source}
    (h : c.Declares u x) (hc : c.Sound u) (hs : c.Filed) (ht : x.isTemplate = false) :
    x ∈ c.sources := by
  rcases List.mem_append.1 h.2 with hx | hx
  · obtain ⟨y, hy, e⟩ := List.mem_map.1 hx
    rwa [h.1.ext (hc.listed y hy) e.symm]
  · simp [hs _ hx] at ht

theorem ClaimKind.isAll_of_isNullable {k : ClaimKind} (h : k.isNullable = true) :
    k.isAll = false := by
  cases k <;> first | rfl | cases h

theorem Edge.allOf_ne_single {c c' : Claim} {ts : List Target} {t : Target} :
    Edge.allOf c ts ≠ .single c' t := fun h => by
  have ht := congrArg Edge.target? h
  rw [Edge.target?_single] at ht
  cases ht

/-- A move declares one draft, or none. -/
theorem Resolver.Move.added {r : Resolver} {s t : State} (h : r.Move s t) :
    t.catalog = s.catalog ∨ ∃ draft, s.catalog.Added r.types draft t.catalog := by
  cases h with
  | skip | expand | bypass | commit | answer | await | nest => exact .inl rfl
  | forward hs hw hf hk ht hp hr | supply hs hb hf hn hd hr =>
    exact .inr ⟨_, (Catalog.added_of_registerSource? hr).2.2⟩
  | extend hr => exact .inr ⟨_, (Catalog.added_of_register? hr).2⟩

namespace State

variable {r : Resolver} {c₀ : Catalog} {s t : State} {c : Claim} {d owner : Source} {e : Edge}
  {es : List Edge} {ts : List Target}

/-! ## What is known of a collection -/

/-- The targets of a collection in a component, the owner, are the matches of its claim. What the
owner itself must not satisfy is said of declarations that are no proxies, and matches are looked
for among those of the catalog `c₀`. -/
structure Exhausts (c₀ : Catalog) (s : State) (owner : Source) (c : Claim) (ts : List Target) :
    Prop where
  /-- The targets are in the order of the finished components. -/
  ascending : (ts.map Target.index).Pairwise (· < ·)
  /-- Each target satisfies the claim. -/
  provided : ∀ t ∈ ts, s.Provides c t
  /-- Each declaration that satisfies the claim has a target, defaults excepted. -/
  complete : ∀ d ∈ c₀.sources, d.isProxy = false → d.isDefault = false → d.Fits c →
    ∃ t ∈ ts, ∃ n, s.resolved[t.index]? = some n ∧ n.source = d
  /-- The owner does not satisfy the claim, unless it is a default. -/
  foreign : owner.isProxy = false → owner.isTemplate = false → owner.isDefault = false →
    ¬ owner.Fits c

theorem Exhausts.mono (h : s.Exhausts c₀ owner c ts) (hg : s.Grows t) :
    t.Exhausts c₀ owner c ts where
  ascending := h.ascending
  provided x hx := (h.provided x hx).mono hg
  complete d hd hp hn hf := by
    obtain ⟨x, hx, n, hn, e⟩ := h.complete d hd hp hn hf
    exact ⟨x, hx, n, hg.getElem? hn, e⟩
  foreign := h.foreign

/-- **A collection is complete when it is made.** -/
theorem exhausts_of_awaited (hi : s.Identified r.types) (hx : s.Indexed) (hs : s.catalog.Filed)
    (hc : c₀.Extends s.catalog) (ho : s.catalog.Declares r.types owner)
    (hu : s.isResolved owner.id = false) (ha : s.awaited c = none) :
    s.Exhausts c₀ owner c ((s.resolvedMatches c).map Match.target) where
  ascending := by
    rw [List.map_map, List.pairwise_map]
    exact pairwise_resolvedMatches hx c
  provided x hm := by
    obtain ⟨m, hm', rfl⟩ := List.mem_map.1 hm
    exact provides_of_mem hm'
  complete d hd hp hn hf := by
    have hm : d ∈ s.declaredMatches c :=
      (mem_declaredMatches hi.sound).2 ⟨hc.sources.mem hd, hp, hf⟩
    obtain ⟨m, hm, n, hres, e⟩ := exists_match hi hx hm (isResolved_of_awaited ha hm hn)
    exact ⟨m.target, List.mem_map_of_mem hm, n, hres, e⟩
  foreign hp ht hn hf := by
    -- It would be awaited, as it is not finished.
    have hm : owner ∈ s.declaredMatches c :=
      (mem_declaredMatches hi.sound).2 ⟨ho.mem_sources hi.sound hs ht, hp, hf⟩
    simp [isResolved_of_awaited ha hm hn] at hu

/-! ## Collections stay complete -/

/-- All collections are complete. -/
structure Collected (c₀ : Catalog) (s : State) : Prop where
  /-- Those of finished components. -/
  finished : ∀ n ∈ s.resolved, ∀ c ts, .allOf c ts ∈ n.edges → s.Exhausts c₀ n.source c ts
  /-- Those of components in progress. -/
  inProgress : ∀ f, .component f ∈ s.stack → ∀ c ts, .allOf c ts ∈ f.edges →
    s.Exhausts c₀ f.source c ts

theorem collected_start (c : Catalog) : (start c).Collected c₀ where
  finished := by simp [start]
  inProgress := by simp [start]

theorem Collected.move (h : s.Collected c₀) (hi : s.Identified r.types) (hx : s.Indexed)
    (hs : s.catalog.Filed) (hc : c₀.Extends s.catalog) (hm : r.Move s t) : t.Collected c₀ where
  finished n hn c ts he := by
    rcases hm.mem_resolved hn with hn | ⟨f, hf, hsrc, hedges, -⟩ | ⟨d, claimed, hsf⟩
    · exact (h.finished n hn c ts he).mono hm.grows
    · rw [← hedges] at he
      exact hsrc ▸ (h.inProgress f hf c ts he).mono hm.grows
    · simp [hsf.edges] at he
  inProgress f hf c ts he := by
    cases hm.arises hf with
    | kept hf => exact (h.inProgress f hf c ts he).mono hm.grows
    | @answered g c' cs e hg hp ha hf =>
      rw [hf] at he ⊢
      rcases List.mem_append.1 he with he | he
      · exact (h.inProgress g hg c ts he).mono hm.grows
      · cases ha with
        | every hk ha =>
          cases List.mem_singleton.1 he
          have hu : s.isResolved g.source.id = false :=
            hi.unresolved _ (Frame.mem_ids.2 ⟨g, hg, rfl⟩)
          exact (exhausts_of_awaited hi hx hs hc (hi.declares hg) hu ha).mono hm.grows
        | finished | declared => exact absurd (List.mem_singleton.1 he) Edge.allOf_ne_single
        | absent | token => cases List.mem_singleton.1 he
    | @bypassed g c' cs i hg hp hk hf =>
      rw [hf] at he ⊢
      rcases List.mem_append.1 he with he | he
      · exact (h.inProgress g hg c ts he).mono hm.grows
      · exact absurd (List.mem_singleton.1 he) Edge.allOf_ne_single
    | started ht hs hx hf =>
      rw [hf] at he
      cases he

end State

namespace Resolver

variable {r : Resolver} {drafts : List Draft} {n round : Nat} {goal : Option Claim} {s : State}
  {c₀ : Catalog} {c : Claim} {ts : List Target}

theorem Declared.catalogFiled (hc : Declared r drafts c₀) : c₀.Filed := fun d hd => by
  rw [hc.templates] at hd
  exact (List.mem_filter.1 hd).2

theorem Moves.catalogFiled (hm : Moves r (.start c₀) s) (hc : Declared r drafts c₀) :
    s.catalog.Filed := by
  refine hm.invariant (I := fun s => s.catalog.Filed) (fun s t hs h => ?_) hc.catalogFiled
  rcases h.added with e | ⟨draft, ha⟩
  · rwa [e]
  · exact ha.filed hs

/-- **Collections are complete in every state of every run.** -/
theorem Moves.collected (hm : Moves r (.start c₀) s) (hc : Declared r drafts c₀) :
    s.Collected c₀ := by
  induction hm with
  | refl => exact State.collected_start c₀
  | tail hm h ih =>
    exact ih.move (Moves.identified hm hc) (Moves.indexed hm hc) (Moves.catalogFiled hm hc)
      (Moves.grows hm).catalog h

/-! ## A claim on every match asks nothing -/

/-- **A claim on every match is never reported as unresolved or ambiguous**, and it leads neither to
a fork nor to another round. A step at which such a claim is pending goes on, unless the component
itself closes a cycle. -/
theorem step_of_isAll {f : ComponentFrame} {below : List Frame} {cs : List Claim}
    (hs : s.stack = .component f :: below) (hf : f.pending = c :: cs) (hk : c.kind.isAll = true) :
    (∃ t, r.step n round goal s = .ok (.next t)) ∨ r.step n round goal s = .error .outOfFuel ∨
      ∃ claim chain, r.step n round goal s = .error (.failure (.circular claim chain)) := by
  unfold step
  rw [hs]
  dsimp only
  cases hb : r.breakCycle n { s with stack := below } f.source with
  | error i =>
    rcases isCircular_of_breakCycle hb with rfl | hi
    · exact .inr (.inl rfl)
    · exact .inr (.inr (exists_circular hi))
  | ok o =>
    cases o with
    | some t => exact .inl ⟨t, rfl⟩
    | none =>
      refine .inl ⟨collect { s with stack := below } f c, ?_⟩
      simp [hf, advance, hk, bind, Except.bind]

/-! ## The collections of a plan -/

/-- What the targets of a collection in the plan are. -/
structure Gathers (r : Resolver) (drafts : List Draft) (s : State) (p : Plan) (c : Claim)
    (ts : List Target) : Prop where
  /-- They are in the order of the plan. -/
  ascending : (ts.map Target.index).Pairwise (· < ·)
  /-- Each is a component that satisfies the claim and no proxy, and the value inside it is used
  exactly if the component itself cannot be. -/
  fitting : ∀ t ∈ ts, ∃ q, p.components[t.index]? = some q ∧ q.isProxy = false ∧
    c.tags.Accepts q.tags ∧ (r.types.Reaches q.type c.type ∨ r.types.Wraps q.type c.type) ∧
    (t.unwrap = true ↔ r.types.Wraps q.type c.type ∧ ¬ r.types.Reaches q.type c.type)
  /-- Each draft that satisfies the claim is among them, templates and defaults excepted. -/
  complete : ∀ (k : Nat) (d : Draft), drafts[k]? = some d → d.isTemplate = false →
    d.isDefault = false → (d.declare k).Satisfies r.types c →
    ∃ t ∈ ts, ∃ n, s.resolved[t.index]? = some n ∧ n.source.toDeclaration = d.declare k

theorem gathers_of_exhausts {owner : Source} (hi : s.Identified r.types) (hc : Declared r drafts c₀)
    (ho : ∀ d ∈ drafts, d.origin.isFound = true) (h : s.Exhausts c₀ owner c ts) :
    Gathers r drafts s (s.toPlan round) c ts where
  ascending := h.ascending
  fitting t ht := by
    obtain ⟨q, hq, hp, hserve⟩ : ∃ q, (s.toPlan round).components[t.index]? = some q ∧
        q.isProxy = false ∧ r.Serves s c q t.unwrap := serves_of_provides hi (h.provided t ht)
    refine ⟨q, hq, hp, ?_⟩
    generalize t.unwrap = unwrap at hserve
    cases hserve with
    | direct _ ha hr => exact ⟨ha, .inl hr, by simp [hr]⟩
    | unwrapped _ ha hr hw => exact ⟨ha, .inr hw, by simp [hr, hw]⟩
    | proxy hq' => simp [Component.isProxy, hq'] at hp
  complete k d hk ht hn hsat := by
    obtain ⟨x, hx, e⟩ := hc.exists_source hk ht
    have hdef : x.isDefault = false := by simpa [e, Draft.declare] using hn
    have hfit : x.Fits c := (hc.sound.listed x hx).fits_iff.2 (e ▸ hsat)
    obtain ⟨t, ht, n, hn, rfl⟩ := h.complete x hx (hc.isProxy ho x hx) hdef hfit
    exact ⟨t, ht, n, hn, e⟩

theorem mem_edges_of_allOf {i : Nat} {m : Node}
    (h : .allOf c ts ∈ (s.componentAt i m).dependencies) : .allOf c ts ∈ m.edges := by
  obtain ⟨e, he, h⟩ := List.mem_map.1 h
  cases e <;> simp_all [State.bindProxy]

/-- A claim on every match is answered by a collection. -/
theorem exists_allOf {m : Node} (ha : s.Answered r c₀) (hm : m ∈ s.resolved)
    (hc : c ∈ m.source.claims) (hk : c.kind.isAll = true) :
    m.source.isProxy = false ∧ ∃ ts, .allOf c ts ∈ m.edges := by
  rcases ha.finished m hm with hcov | ⟨d, -, -, hsf⟩
  · refine ⟨hcov.notProxy, ?_⟩
    rw [← hcov.claims, List.append_nil] at hc
    obtain ⟨e, he, rfl⟩ := List.mem_map.1 hc
    have hset := hcov.settled e he
    generalize hcl : e.claim = c at hset hk
    cases hset with
    | component hk' | proxy hk' => simp [ClaimKind.isSingle, hk] at hk'
    | absent hk' =>
      rw [ClaimKind.isAll_of_isNullable hk'] at hk
      cases hk
    | every => exact ⟨_, he⟩
    | token hk' => simp [hk', ClaimKind.isAll] at hk
  · rw [hsf.claims_eq, List.mem_singleton] at hc
    simp [hc, Source.forwardingClaim, ClaimKind.isAll] at hk

/-- **Collections are complete.** In a plan for drafts that can be found, the targets of each
collection are the components that `Resolver.Gathers` says, and no component satisfies its own claim
on every match, unless it is a default or its type has variables. And in no state does such a claim
lead to the report that it is unresolved or ambiguous. -/
theorem collections_are_complete (r : Resolver) (drafts : List Draft) (round : Nat)
    (ho : ∀ d ∈ drafts, d.origin.isFound = true) :
    (∀ fuel p, r.resolve fuel drafts round = .ok (.resolved p) →
      ∃ s, r.Completes fuel drafts round s ∧ p = s.toPlan round ∧
        (∀ (i : Nat) (q : Component) c ts, p.components[i]? = some q →
          .allOf c ts ∈ q.dependencies → Gathers r drafts s p c ts) ∧
        ∀ m ∈ s.resolved, m.source.isTemplate = false → m.source.isDefault = false →
          ∀ c ∈ m.source.claims, c.kind.isAll = true →
            ¬ m.source.toDeclaration.Satisfies r.types c) ∧
    ∀ (s : State) (f : ComponentFrame) (below : List Frame) (c : Claim) (cs : List Claim) (n : Nat)
      (goal : Option Claim), s.stack = .component f :: below → f.pending = c :: cs →
        c.kind.isAll = true →
      (∃ t, r.step n round goal s = .ok (.next t)) ∨ r.step n round goal s = .error .outOfFuel ∨
        ∃ claim chain, r.step n round goal s = .error (.failure (.circular claim chain)) := by
  refine ⟨fun fuel p h => ?_, fun s f below c cs n goal hs hf hk => step_of_isAll hs hf hk⟩
  obtain ⟨s, hs, rfl⟩ := resolve_eq_resolved_iff.1 h
  obtain ⟨c₀, hc, hm⟩ := hs.reachable.moves
  have hi := hm.identified hc
  have hcol := hm.collected hc
  refine ⟨s, hs, rfl, fun i q c ts hq he => ?_, fun m hmem ht hn c hcl hk hsat => ?_⟩
  · obtain ⟨m, hmem, rfl⟩ := State.exists_of_toPlan hq
    have hex := hcol.finished m (List.mem_of_getElem? hmem) c ts (mem_edges_of_allOf he)
    exact gathers_of_exhausts hi hc ho hex
  · obtain ⟨hp, ts, he⟩ := exists_allOf (hm.answered hc ho) hmem hcl hk
    have hl := (hi.declared m hmem).1
    exact (hcol.finished m hmem c ts he).foreign hp ht hn (hl.fits_iff.2 hsat)

/-- Whether some component of the plan has a collection with a target. -/
def hasCollection (p : Plan) : Bool :=
  p.components.any fun q => q.dependencies.any fun
    | .allOf _ (_ :: _) => true
    | _ => false

theorem collections_are_complete_ring : ∃ s p,
    ring.resolve 50 ringDrafts 0 = .ok (.resolved p) ∧ hasCollection p = true ∧
    ∀ (i : Nat) (q : Component) c ts, p.components[i]? = some q → .allOf c ts ∈ q.dependencies →
      Gathers ring ringDrafts s p c ts := by
  obtain ⟨p, hp, hcol⟩ := exists_plan (x := ring.resolve 50 ringDrafts 0) hasCollection
    (by decide +kernel)
  obtain ⟨s, -, -, h, -⟩ := (collections_are_complete ring ringDrafts 0 (by decide)).1 50 p hp
  exact ⟨s, p, hp, hcol, h⟩

/-- A component whose type has a variable may satisfy its own claim on every match: the box of `X`
that a parcel needs was declared as a template, so the look-up that answers its claim on all boxes
of `X` does not find it. -/
theorem template_satisfies_own_collection : (∀ d ∈ parcelDrafts, d.origin.isFound = true) ∧
    ∃ s p m c, parcels.Completes 50 parcelDrafts 0 s ∧ p = s.toPlan 0 ∧
      parcels.resolve 50 parcelDrafts 0 = .ok (.resolved p) ∧ m ∈ s.resolved ∧
      m.source.isDefault = false ∧ c ∈ m.source.claims ∧ c.kind.isAll = true ∧
      m.source.toDeclaration.Satisfies parcels.types c := by
  obtain ⟨s, hs, h⟩ := exists_completes parcels 50 parcelDrafts 0
    (fun s => s.resolved.any fun m => !m.source.isDefault && m.source.type == boxOfX &&
      m.source.tags == ∅ && m.source.claims.contains { type := boxOfX, kind := .all })
    (by decide +kernel)
  obtain ⟨m, hm, h⟩ := List.any_eq_true.1 h
  simp only [Bool.and_eq_true, Bool.not_eq_true', beq_iff_eq, List.contains_iff_mem] at h
  obtain ⟨⟨⟨hd, htype⟩, htags⟩, hc⟩ := h
  refine ⟨by decide, s, _, m, _, hs, rfl, resolve_eq_resolved_iff.2 ⟨s, hs, rfl⟩, hm, hd, hc,
    rfl, ?_⟩
  rw [Declaration.Satisfies, htype, htags]
  exact ⟨by decide, .inl (.refl _)⟩

end Resolver

end Wiring
