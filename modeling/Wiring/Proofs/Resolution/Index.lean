import Wiring.Proofs.Resolution.Identity
/-!
# A look-up among finished components misses none

A component is filed under the names that its declaration provides when it is finished, and what a
declaration provides does not change while the catalog grows. So the index of finished components
is always that of the names they provide (`State.Indexed.move`).

`State.mem_resolvedMatches` says which finished components are found for a claim: those that are no
proxies, stem from a source and fit it. `State.pairwise_resolvedMatches` says that they are found in
order, each once.
-/

namespace Wiring

namespace Catalog

variable {u : Universe} {c c' : Catalog} {d : Draft} {s : Source} {id : Nat} {name : String}

theorem mem_of_source? (h : c.source? id = some s) : s ∈ c.sources ∧ s.id = id :=
  ⟨List.mem_of_find?_eq_some h, by simpa using List.find?_some h⟩

/-- A source is found by its identity. -/
theorem Sound.source?_eq_some (h : c.Sound u) (hs : s ∈ c.sources) : c.source? s.id = some s := by
  cases hx : c.source? s.id with
  | none => simpa using List.find?_eq_none.1 hx s hs
  | some x =>
    obtain ⟨hx, e⟩ := mem_of_source? hx
    rw [(declares_of_mem h hx).ext h (declares_of_mem h hs) e]

/-- What a declaration provides, it provides as a source. -/
theorem Sound.mem_providedNames (h : c.Sound u) (hs : c.Declares u s) :
    name ∈ c.providedNames s.id ↔ s ∈ c.sources ∧ name ∈ s.providedNames := by
  constructor
  · intro hn
    cases hx : c.source? s.id with
    | none => simp [providedNames, hx] at hn
    | some x =>
      obtain ⟨hmem, e⟩ := mem_of_source? hx
      obtain rfl := (declares_of_mem h hmem).ext h hs e
      exact ⟨hmem, by simpa [providedNames, hx] using hn⟩
  · rintro ⟨hmem, hn⟩
    simpa [providedNames, h.source?_eq_some hmem] using hn

theorem nodup_providedNames (c : Catalog) (id : Nat) : (c.providedNames id).Nodup := by
  unfold providedNames
  cases c.source? id with
  | none => exact .nil
  | some s => exact s.nodup_providedNames

/-- One more declaration leaves those before with what they provide. -/
theorem Added.providedNames_eq (h : Added u c d c') (hid : id < c.nextId) :
    c'.providedNames id = c.providedNames id := by
  cases h with
  | template => rfl
  | @source s ht hl e =>
    have hs : s.id = c.nextId := congrArg Declaration.id e
    have hne : (s.id == id) = false := by simpa [hs] using Nat.ne_of_gt hid
    rw [providedNames, providedNames, source?, source?, addSource, List.find?_append]
    simp [hne]

end Catalog

namespace State

open Resolver

variable {u : Universe} {r : Resolver} {s t : State} {d : Source} {draft : Draft} {c : Claim}
  {catalog : Catalog} {es : List Edge} {stack : List Frame} {m : Match}

/-- Finished components are filed under the names that their declarations provide. -/
def Indexed (s : State) : Prop :=
  s.index = .ofLists (s.resolved.map fun n => s.catalog.providedNames n.source.id)

theorem indexed_start (c : Catalog) : (start c).Indexed := rfl

theorem Indexed.commit (h : s.Indexed) : (s.commit d es).Indexed := by
  rw [Indexed] at h ⊢
  simp only [State.commit, List.map_append, List.map_singleton]
  rw [NameIndex.ofLists_concat, List.length_map, h]

theorem Indexed.withCatalog (h : s.Indexed) (hi : s.Identified u)
    (ha : s.catalog.Added u draft catalog) : { s with catalog }.Indexed := by
  rw [Indexed] at h ⊢
  rw [h]
  refine congrArg NameIndex.ofLists (List.map_congr_left fun n hn => ?_)
  exact (ha.providedNames_eq (hi.sound.fresh _ (hi.declared n hn).2)).symm

/-- **A move keeps finished components filed.** -/
theorem Indexed.move (h : s.Indexed) (hi : s.Identified r.types) (hm : r.Move s t) :
    t.Indexed := by
  cases hm with
  | skip | expand | bypass | answer | await | nest => exact h
  | forward hs hw hf hk ht hp hr =>
    exact (h.withCatalog hi (Catalog.added_of_registerSource? hr).2.2).commit
  | commit => exact Indexed.commit (s := { s with stack := _ }) h
  | supply hs hb hf hn hd hr => exact h.withCatalog hi (Catalog.added_of_registerSource? hr).2.2
  | extend hr => exact h.withCatalog hi (Catalog.added_of_register? hr).2

theorem Indexed.positions (h : s.Indexed) (name : String) :
    s.index.positions name =
      s.resolved.findIdxs (name ∈ s.catalog.providedNames ·.source.id) := by
  rw [h, NameIndex.positions_ofLists, List.findIdxs_map]
  · rfl
  · simp only [List.mem_map, forall_exists_index, and_imp, forall_apply_eq_imp_iff₂]
    exact fun n _ => s.catalog.nodup_providedNames n.source.id

/-- **A claim finds the finished components that fit it**: those that are no proxies, and whose
declarations are sources. -/
theorem mem_resolvedMatches (h : s.Indexed) (hi : s.Identified u) :
    m ∈ s.resolvedMatches c ↔ (∃ es, s.resolved[m.position]? = some ⟨m.source, es⟩) ∧
      m.source ∈ s.catalog.sources ∧ m.source.isProxy = false ∧ m.source.fit? c = some m.fit := by
  have hmem (i : Nat) : i ∈ s.index.positions c.type.name ↔
      ∃ n, s.resolved[i]? = some n ∧ n.source ∈ s.catalog.sources ∧
        c.type.name ∈ n.source.providedNames := by
    simp only [h.positions, List.mem_findIdxs_iff_exists_getElem_pos, decide_eq_true_eq]
    constructor
    · rintro ⟨hi', hn⟩
      have hd := hi.declared _ (List.getElem_mem hi')
      exact ⟨_, List.getElem?_eq_getElem hi', (hi.sound.mem_providedNames hd).1 hn⟩
    · rintro ⟨n, hn, hs⟩
      obtain ⟨hi', rfl⟩ := List.getElem?_eq_some_iff.1 hn
      exact ⟨hi', (hi.sound.mem_providedNames (hi.declared _ (List.getElem_mem hi'))).2 hs⟩
  constructor
  · intro hm
    obtain ⟨i, hpos, hm⟩ := List.mem_filterMap.1 hm
    obtain ⟨n, hn, hm⟩ := Option.bind_eq_some_iff.1 hm
    obtain ⟨n', hn', hs, -⟩ := (hmem i).1 hpos
    obtain rfl := Option.some.inj (hn.symm.trans hn')
    split at hm <;> rename_i hp
    · cases hm
    · obtain ⟨f, hf, hm⟩ := Option.bind_eq_some_iff.1 hm
      cases hm
      exact ⟨⟨n.edges, hn⟩, hs, by simpa using hp, hf⟩
  · rintro ⟨⟨es, hn⟩, hs, hp, hf⟩
    have hfit : m.source.Fits c := Option.isSome_iff_exists.2 ⟨_, hf⟩
    refine List.mem_filterMap.2 ⟨m.position, (hmem _).2 ⟨_, hn, hs, ?_⟩, ?_⟩
    · exact Source.name_mem_providedNames hfit
    · simp [hn, hp, hf]

/-- What is declared and finished has a match at its position. -/
theorem exists_match (hi : s.Identified u) (hx : s.Indexed) (hd : d ∈ s.declaredMatches c)
    (hr : s.isResolved d.id = true) :
    ∃ m ∈ s.resolvedMatches c, ∃ n, s.resolved[m.position]? = some n ∧ n.source = d := by
  obtain ⟨hd, hp, hf⟩ := mem_sources_of_mem_declaredMatches hd
  obtain ⟨n, hn, hid⟩ := isResolved_iff.1 hr
  obtain rfl : n.source = d := hi.source_eq hn (Catalog.declares_of_mem hi.sound hd) hid
  obtain ⟨i, hn⟩ := List.mem_iff_getElem?.1 hn
  obtain ⟨fit, hfit⟩ := Option.isSome_iff_exists.1 hf
  exact ⟨⟨i, n.source, fit⟩,
    (mem_resolvedMatches hx hi).2 ⟨⟨n.edges, hn⟩, hd, hp, hfit⟩, n, hn, rfl⟩

/-- Finished components are found in the order in which they were finished, each once. -/
theorem pairwise_resolvedMatches (h : s.Indexed) (c : Claim) :
    (s.resolvedMatches c).Pairwise (·.position < ·.position) := by
  unfold resolvedMatches
  rw [h.positions, List.pairwise_filterMap]
  refine List.pairwise_findIdxs.imp fun {i j} hij m hm m' hm' => ?_
  -- What is found at a position records it.
  have hpos {i : Nat} {m : Match} (hm : (do
      let node ← s.resolved[i]?
      if node.source.isProxy then none
      else return ⟨i, node.source, ← node.source.fit? c⟩) = some m) : m.position = i := by
    obtain ⟨n, -, hm⟩ := Option.bind_eq_some_iff.1 hm
    split at hm
    · cases hm
    · obtain ⟨f, -, hm⟩ := Option.bind_eq_some_iff.1 hm
      cases hm
      rfl
  rwa [hpos hm, hpos hm']

end State

namespace Resolver

variable {r : Resolver} {drafts : List Draft} {round : Nat} {goal : Option Claim} {s : State}
  {c : Catalog}

theorem Moves.indexed (hm : Moves r (.start c) s) (hc : Declared r drafts c) : s.Indexed := by
  induction hm with
  | refl => exact State.indexed_start c
  | tail hm h ih => exact ih.move (Moves.identified hm hc) h

theorem Reachable.indexed (h : Reachable r drafts round goal s) : s.Indexed := by
  obtain ⟨c, hc, hm⟩ := h.moves
  exact hm.indexed hc

end Resolver

end Wiring
