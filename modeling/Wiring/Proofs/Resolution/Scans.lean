import Wiring.Proofs.Resolution.Groundness
import Wiring.Proofs.Resolution.Index
import Wiring.Proofs.Universe.Finite
/-!
# Looking up a name misses nothing that fits

Sources and finished components are looked up by the name of the claimed type, in two indexes that
grow with the catalog and with the state. What fits a claim provides the name of its type, so the
look-ups find what a scan of everything finds, in the same order.

* `Declaration.fitWithin?` decides whether a declaration fits by searching the table of types. It
  agrees with what sources list (`Source.Listed.fitWithin?_eq`), and if types reach finitely many
  others it has an answer (`Source.Listed.exists_fitWithin?`).
* `Catalog.Registered`: the catalog was built by registering drafts, of whatever kind.
* `State.Indexed.filter_resolvedProviding`: the look-up among finished components.
* `Resolver.indexed_lookups_eq_scans` puts them together.

Only a component whose type has a variable is missed: it was declared as a template, and no name
leads to it (`Resolver.lookup_misses_template`). There is none such unless a constructor claims a
type with a variable.
-/

namespace Wiring

/-! ## Fitting by search -/

/-- Whether and how the declaration satisfies a claim, decided by searching the table of types. -/
def Declaration.fitWithin? (d : Declaration) (u : Universe) (budget : Nat) (c : Claim) :
    Option (Option Fit) := do
  if c.tags.Accepts d.tags then
    if ← u.assignable? budget d.type c.type then return some .direct
    if ← u.wrappable? budget d.type c.type then return some .unwrapped
  return none

namespace Source

variable {u : Universe} {s : Source} {c : Claim} {n : Nat} {x : Option Fit}

/-- **The lists of a source agree with a search of the table.** -/
theorem Listed.fitWithin?_eq (h : s.Listed u) (hx : s.fitWithin? u n c = some x) :
    s.fit? c = x := by
  unfold Declaration.fitWithin? at hx
  unfold fit? fitType?
  split at hx <;> rename_i ht
  · rw [if_pos ht]
    obtain ⟨a, ha, hx⟩ := Option.bind_eq_some_iff.1 hx
    simp only [h.mem_ownTypes, ← Universe.assignable?_iff ha]
    split at hx <;> rename_i ha'
    · cases hx
      rw [if_pos ha']
    · obtain ⟨w, hw, hx⟩ := Option.bind_eq_some_iff.1 hx
      simp only [h.mem_innerTypes, ← Universe.wrappable?_iff hw, ha']
      split at hx <;> rename_i hw'
      · cases hx
        simp [hw']
      · cases hx
        simp [hw']
  · cases hx
    rw [if_neg ht]

theorem exists_fitWithin? (hf : u.Finitary) (d : Declaration) (c : Claim) :
    ∃ n, ∀ m ≥ n, ∃ x, d.fitWithin? u m c = some x := by
  obtain ⟨n₁, a, ha⟩ := hf.exists_assignable? d.type c.type
  obtain ⟨n₂, w, hw⟩ := hf.exists_wrappable? d.type c.type
  refine ⟨max n₁ n₂, fun m hm => ?_⟩
  have ha := Universe.assignable?_mono (le_of_max_le_left hm) ha
  have hw := Universe.wrappable?_mono (le_of_max_le_right hm) hw
  unfold Declaration.fitWithin?
  rw [ha, hw]
  by_cases ht : c.tags.Accepts d.tags <;> cases a <;> cases w <;> simp [ht]

/-- For all sources of a list, a search of the table answers with what they list. -/
theorem exists_fitWithin?_eq {l : List Source} (hf : u.Finitary) (hl : ∀ s ∈ l, s.Listed u)
    (c : Claim) : ∃ n, ∀ m ≥ n, ∀ s ∈ l, s.fitWithin? u m c = some (s.fit? c) := by
  have h : ∃ n, ∀ s ∈ l, ∀ m ≥ n, s.fitWithin? u m c = some (s.fit? c) := by
    refine Universe.exists_budget (fun n m s hnm h k hk => h k (hnm.trans hk)) fun s hs => ?_
    obtain ⟨n, h⟩ := exists_fitWithin? hf s.toDeclaration c
    refine ⟨n, fun m hm => ?_⟩
    obtain ⟨y, hy⟩ := h m hm
    rw [hy, (hl s hs).fitWithin?_eq hy]
  obtain ⟨n, hn⟩ := h
  exact ⟨n, fun m hm s hs => hn s hs m hm⟩

end Source

/-! ## The index of sources -/

namespace Catalog

variable {u : Universe} {c c' : Catalog} {d : Draft} {s : Source} {n : Nat}

/-- The catalog was built by registering drafts one after the other. -/
inductive Registered (u : Universe) : Catalog → Prop
  /-- Nothing was registered. -/
  | empty : Registered u ∅
  /-- One more draft was registered, as it was: valid or not. -/
  | register {c c' : Catalog} {d : Draft} {n : Nat} {x : Declaration} (h : Registered u c)
      (hr : c.register? u n d = some (x, c')) : Registered u c'

theorem Registered.sound (h : c.Registered u) : c.Sound u := by
  induction h with
  | empty => exact sound_empty u
  | register _ hr ih => exact (added_of_register? hr).2.sound ih

/-- A draft that is about to be resolved is registered like any other. -/
theorem Registered.registerSource (h : c.Registered u)
    (hr : c.registerSource? u n d = some (s, c')) : c'.Registered u := by
  obtain ⟨x, hx, hr⟩ := Option.bind_eq_some_iff.1 hr
  obtain ⟨-, rfl⟩ := Prod.mk.inj (Option.some.inj hr)
  refine h.register (d := d) (n := n) (x := c.declare d) ?_
  unfold register?
  by_cases ht : (c.declare d).isTemplate = true <;> simp [ht, hx]

/-- **What a look-up by name finds among the sources** is what a scan finds. -/
theorem Sound.filter_sourcesProviding (h : c.Sound u) (claim : Claim) :
    (c.sourcesProviding claim.type.name).filter (·.Fits claim) =
      c.sources.filter (·.Fits claim) := by
  rw [h.sourcesProviding, List.filter_filter]
  refine List.filter_congr fun s _ => ?_
  by_cases hs : s.Fits claim
  · simp [hs, Source.name_mem_providedNames hs]
  · simp [hs]

end Catalog

/-! ## The index of finished components -/

/-- The match that a finished component is for the claim, given with its position; none, if it is a
proxy or does not satisfy the claim. -/
def Match.of? (c : Claim) (e : Node × Nat) : Option Match :=
  if e.1.source.isProxy then none else (e.1.source.fit? c).map fun f => ⟨e.2, e.1.source, f⟩

namespace State

open Resolver

variable {r : Resolver} {u : Universe} {s t : State} {c : Claim} {N : String → Prop}

/-- The finished components that may satisfy a claim on a type of this name, with their positions,
in order. -/
def resolvedProviding (s : State) (name : String) : List (Node × Nat) :=
  (s.index.positions name).filterMap fun i => s.resolved[i]?.map (·, i)

/-- **What a look-up by name finds among the finished components** is what a scan finds among those
that stem from a source. -/
theorem Indexed.filter_resolvedProviding (h : s.Indexed) (hi : s.Identified u) (c : Claim) :
    (s.resolvedProviding c.type.name).filter (·.1.source.Fits c) =
      s.resolved.zipIdx.filter fun e => e.1.source ∈ s.catalog.sources ∧ e.1.source.Fits c := by
  rw [resolvedProviding, h.positions, filterMap_findIdxs_zipIdx, List.filter_filter]
  refine List.filter_congr fun e he => ?_
  have hd := hi.declared e.1 (List.fst_mem_of_mem_zipIdx he)
  by_cases hf : e.1.source.Fits c
  · simp [hf, hi.sound.mem_providedNames hd, Source.name_mem_providedNames hf]
  · simp [hf]

/-- If all that is finished stems from sources, it is what a scan finds. -/
theorem Within.filter_resolvedProviding (hw : s.Within N) (h : s.Indexed) (hi : s.Identified u)
    (c : Claim) : (s.resolvedProviding c.type.name).filter (·.1.source.Fits c) =
      s.resolved.zipIdx.filter (·.1.source.Fits c) := by
  rw [h.filter_resolvedProviding hi]
  refine List.filter_congr fun e he => ?_
  simp [hw.finished e.1 (List.fst_mem_of_mem_zipIdx he)]

/-- **The matches of a claim are read off this look-up.** -/
theorem resolvedMatches_eq (s : State) (c : Claim) :
    s.resolvedMatches c = (s.resolvedProviding c.type.name).filterMap (Match.of? c) := by
  rw [resolvedMatches, resolvedProviding, List.filterMap_filterMap]
  refine List.filterMap_congr fun i _ => ?_
  cases s.resolved[i]? with
  | none => rfl
  | some n =>
    cases hf : n.source.fit? c <;> cases hp : n.source.isProxy <;> simp [Match.of?, hf, hp]

end State

/-! ## What the engine reaches -/

namespace Resolver

variable {r : Resolver} {s t : State} {c : Catalog}

/-- **A move registers drafts**, or leaves the catalog as it is. -/
theorem Move.registered (h : r.Move s t) (hc : s.catalog.Registered r.types) :
    t.catalog.Registered r.types := by
  cases h with
  | skip | expand | bypass | commit | answer | await | nest => exact hc
  | forward hs hw hf hk ht hp hr => exact hc.registerSource hr
  | supply hs hb hf hn hd hr hk => exact hc.registerSource hr
  | extend hr he => exact hc.register hr

theorem registered_of_declareAll {n : Nat} {drafts : List Draft} {c' : Catalog}
    (hc : c.Registered r.types) (h : r.declareAll n c drafts = .ok c') :
    c'.Registered r.types := by
  induction drafts generalizing c with
  | nil =>
    cases h
    exact hc
  | cons d drafts ih =>
    obtain ⟨-, -, h⟩ := bind_eq_ok.1 h
    obtain ⟨⟨x, c₁⟩, hr, h⟩ := bind_eq_ok.1 h
    exact ih (hc.register (budgeted_eq_ok.1 hr)) h

/-- The states that the engine reaches from a catalog keep its components apart, and filed under the
names that they provide. -/
theorem Moves.filed (h : Moves r (.start c) s) (hc : c.Registered r.types) :
    s.catalog.Registered r.types ∧ s.Identified r.types ∧ s.Indexed := by
  refine h.invariant (I := fun s => s.catalog.Registered r.types ∧ s.Identified r.types ∧ s.Indexed)
    (fun s t ⟨hc, hi, hx⟩ hm => ⟨hm.registered hc, hi.move hm, hx.move hi hm⟩) ?_
  exact ⟨hc, State.identified_start hc.sound, State.indexed_start c⟩

/-- **Indexed look-ups find what scans of everything find**, in the same order, if every type
reaches finitely many others.

This holds of the sources of every catalog, whatever drafts it was built from, and of the finished
components of every state that the engine reaches from it. Of these, one whose own type has a
variable provides no names, as templates do not; so a look-up finds those that stem from sources. If
the catalog is bound, as it is when its drafts are valid, and no constructor claims a type with a
variable, as in every table that is read, then all finished components do. -/
theorem indexed_lookups_eq_scans (r : Resolver) (hf : r.types.Finitary) :
    (∀ c : Catalog, c.Registered r.types → ∀ claim,
      (c.sourcesProviding claim.type.name).filter (·.Fits claim) = c.sources.filter (·.Fits claim) ∧
      ∃ n, ∀ m ≥ n, ∀ d ∈ c.sources, d.fitWithin? r.types m claim = some (d.fit? claim)) ∧
    (∀ c : Catalog, c.Registered r.types → ∀ round s, Course r round (.start c) s →
      s.catalog.Registered r.types ∧ ∀ claim,
        s.resolvedMatches claim =
          (s.resolvedProviding claim.type.name).filterMap (Match.of? claim) ∧
        (s.resolvedProviding claim.type.name).filter (·.1.source.Fits claim) =
          (s.resolved.zipIdx.filter fun e =>
            e.1.source ∈ s.catalog.sources ∧ e.1.source.Fits claim) ∧
        (c.Bound → r.types.Ground →
          (s.resolvedProviding claim.type.name).filter (·.1.source.Fits claim) =
            s.resolved.zipIdx.filter (·.1.source.Fits claim)) ∧
        ∃ n, ∀ m ≥ n, ∀ x ∈ s.resolved,
          x.source.fitWithin? r.types m claim = some (x.source.fit? claim)) ∧
    ∀ drafts round goal s, Reachable r drafts round goal s →
      ∃ n c, r.declareAll n ∅ drafts = .ok c ∧ c.Registered r.types ∧ c.Bound ∧
        Course r round (.start c) s := by
  refine ⟨fun c hc claim => ⟨hc.sound.filter_sourcesProviding claim, ?_⟩,
    fun c hc round s hs => ?_, fun drafts round goal s hs => ?_⟩
  · exact Source.exists_fitWithin?_eq hf hc.sound.listed claim
  · obtain ⟨hreg, hi, hx⟩ := hs.moves.filed hc
    refine ⟨hreg, fun claim => ⟨s.resolvedMatches_eq claim, hx.filter_resolvedProviding hi claim,
      fun hb hg => ?_, ?_⟩⟩
    · have hw := hs.deeds.within (State.identified_start hc.sound) hg (within_start_of_bound hb)
      exact hw.filter_resolvedProviding hx hi claim
    · have hl : ∀ d ∈ s.resolved.map Node.source, d.Listed r.types := by
        intro d hd
        obtain ⟨x, hx, rfl⟩ := List.mem_map.1 hd
        exact (hi.declared x hx).1
      obtain ⟨n, hn⟩ := Source.exists_fitWithin?_eq hf hl claim
      exact ⟨n, fun m hm x hx => hn m hm x.source (List.mem_map_of_mem hx)⟩
  · obtain ⟨n, c, hc, hcourse⟩ := hs.course
    exact ⟨n, c, hc, registered_of_declareAll .empty hc, bound_of_declareAll hc, hcourse⟩

theorem indexed_lookups_eq_scans_ring : ring.types.Finitary ∧ ring.types.Ground ∧
    ∃ c s, c.Registered ring.types ∧ c.Bound ∧ Course ring 0 (.start c) s ∧
      (c.sourcesProviding "Bus").filter (·.Fits { type := .named "Bus" [] }) =
        c.sources.filter (·.Fits { type := .named "Bus" [] }) ∧
      (s.resolvedProviding "Bus").filter (·.1.source.Fits { type := .named "Bus" [] }) =
        s.resolved.zipIdx.filter (·.1.source.Fits { type := .named "Bus" [] }) ∧
      (s.resolvedProviding "Bus").map (·.2) = [0, 2] ∧
      s.resolvedMatches { type := .named "Bus" [] } =
        (s.resolvedProviding "Bus").filterMap (Match.of? { type := .named "Bus" [] }) := by
  have hf : ring.types.Finitary := Universe.finitary_of_hasVars (by decide +kernel)
  have hg : ring.types.Ground := fun t a ha => by
    rw [Universe.autoConstructor?_eq_none (by decide +kernel) t] at ha
    cases ha
  obtain ⟨s, hs, hpos⟩ := exists_completes ring 50 ringDrafts 0
    (fun s => (s.resolvedProviding "Bus").map (·.2) == [0, 2]) (by decide +kernel)
  obtain ⟨hsources, hstates, hreach⟩ := indexed_lookups_eq_scans ring hf
  obtain ⟨n, c, hc, hreg, hb, hcourse⟩ := hreach ringDrafts 0 none s hs.reachable
  obtain ⟨-, hclaims⟩ := hstates c hreg 0 s hcourse
  obtain ⟨hmatches, -, hscan, -⟩ := hclaims { type := .named "Bus" [] }
  exact ⟨hf, hg, c, s, hreg, hb, hcourse, (hsources c hreg { type := .named "Bus" [] }).1,
    hscan hb hg, by simpa using hpos, hmatches⟩

/-- A look-up by name may miss what a scan finds: a round for a parcel finishes a crate and a box of
`X`, and both satisfy a claim of such a box, but the box was declared as a template and provides no
names. -/
theorem lookup_misses_template : parcels.types.Finitary ∧
    ∃ c s, c.Registered parcels.types ∧ c.Bound ∧ Course parcels 0 (.start c) s ∧
      (s.resolved.zipIdx.filter (·.1.source.Fits { type := boxOfX })).map (·.2) = [0, 1] ∧
      ((s.resolvedProviding boxOfX.name).filter (·.1.source.Fits { type := boxOfX })).map (·.2) =
        [0] := by
  have hf : parcels.types.Finitary := Universe.finitary_of_hasVars (by decide +kernel)
  obtain ⟨s, hs, h⟩ := exists_completes parcels 50 parcelDrafts 0
    (fun s => (s.resolved.zipIdx.filter (·.1.source.Fits { type := boxOfX })).map (·.2) == [0, 1] &&
      ((s.resolvedProviding boxOfX.name).filter
        (·.1.source.Fits { type := boxOfX })).map (·.2) == [0])
    (by decide +kernel)
  obtain ⟨n, c, hc, hcourse⟩ := hs.reachable.course
  obtain ⟨hscan, hlookup⟩ := Bool.and_eq_true_iff.1 h
  exact ⟨hf, c, s, registered_of_declareAll .empty hc, bound_of_declareAll hc, hcourse,
    by simpa using hscan, by simpa using hlookup⟩

end Resolver

end Wiring
