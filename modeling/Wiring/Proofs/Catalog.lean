import Mathlib.Data.List.Infix
import Mathlib.Data.List.Nodup
import Wiring.Catalog
import Wiring.Proofs.Universe.Search
/-!
# Catalogs keep their declarations apart

A catalog that began empty and took in drafts one after the other is `Catalog.Sound`: the
identities of its declarations differ and are below the next one, its sources list the types that
they reach, and its index is that of the names they provide.

* `Source.Listed.fits_iff`: a source that lists its types fits a claim exactly if the type of its
  declaration satisfies it, which `Declaration.Satisfies` says in terms of what types reach.
* `Catalog.Sound.sourcesProviding`: looking up a name finds the sources that provide it, in order.
* `Catalog.Added.sound`: one more declaration keeps a catalog sound.
-/

namespace Wiring

/-! ## Positions of names -/

namespace NameIndex

variable {pos : Nat} {name x : String} {names : List String} {ix : NameIndex}

theorem lookup_fileEntry (es : List (String × List Nat)) :
    ((fileEntry pos x es).lookup name).getD [] =
      if name = x then (es.lookup name).getD [] ++ [pos] else (es.lookup name).getD [] := by
  induction es with
  | nil => by_cases h : name = x <;> simp [fileEntry, NameMap.lookup_cons_eq, h]
  | cons e es ih =>
    obtain ⟨n, ps⟩ := e
    simp only [fileEntry]
    by_cases hn : n = x
    · subst hn
      by_cases h : name = n <;> simp [NameMap.lookup_cons_eq, h]
    · rw [if_neg hn, NameMap.lookup_cons_eq, NameMap.lookup_cons_eq]
      by_cases h : name = n
      · subst h
        simp [hn]
      · simpa [h] using ih

theorem positions_file (h : names.Nodup) :
    (ix.file pos names).positions name =
      if name ∈ names then ix.positions name ++ [pos] else ix.positions name := by
  obtain ⟨es⟩ := ix
  induction names generalizing es with
  | nil => simp [file]
  | cons x names ih =>
    obtain ⟨hx, hn⟩ := List.nodup_cons.1 h
    have e : (file ⟨es⟩ pos (x :: names)).positions name =
        (file ⟨fileEntry pos x es⟩ pos names).positions name := rfl
    rw [e, ih hn]
    simp only [positions, lookup_fileEntry, List.mem_cons]
    by_cases h : name = x
    · subst h
      simp [hx]
    · simp [h]

/-- The index of a list in which each element is filed under its names. -/
def ofLists (l : List (List String)) : NameIndex :=
  l.zipIdx.foldl (fun ix e => ix.file e.2 e.1) ∅

theorem ofLists_concat (l : List (List String)) (names : List String) :
    ofLists (l ++ [names]) = (ofLists l).file l.length names := by
  simp [ofLists, List.zipIdx_append]

/-- The positions filed under a name are those of the elements that have it. -/
theorem positions_ofLists {l : List (List String)} (h : ∀ names ∈ l, names.Nodup) :
    (ofLists l).positions name = l.findIdxs (name ∈ ·) := by
  induction l using List.reverseRecOn with
  | nil => rfl
  | append_singleton l names ih =>
    rw [ofLists_concat, positions_file (h names (by simp)), ih fun ns hns => h ns (by simp [hns]),
      List.findIdxs_append, List.findIdxs_singleton]
    by_cases hn : name ∈ names <;> simp [hn]

end NameIndex

/-- The elements at the positions at which a list meets a condition, with these positions. -/
theorem filterMap_findIdxs_zipIdx {α : Type} (p : α → Bool) (l : List α) :
    (l.findIdxs p).filterMap (fun i => l[i]?.map (·, i)) = l.zipIdx.filter (p ·.1) := by
  induction l using List.reverseRecOn with
  | nil => rfl
  | append_singleton l a ih =>
    rw [List.findIdxs_append, List.filterMap_append, List.zipIdx_append, List.filter_append, ← ih,
      List.findIdxs_singleton]
    congr 1
    · refine List.filterMap_congr fun i hi => ?_
      have := List.lt_add_of_mem_findIdxs i hi
      rw [List.getElem?_append_left (by omega)]
    · by_cases h : p a <;> simp [h]

/-- The elements at the positions at which a list meets a condition. -/
theorem filterMap_findIdxs {α : Type} (p : α → Bool) (l : List α) :
    (l.findIdxs p).filterMap (l[·]?) = l.filter p := by
  have h := congrArg (List.map Prod.fst) (filterMap_findIdxs_zipIdx p l)
  have hfilter : (l.zipIdx.filter (p ·.1)).map Prod.fst = (l.zipIdx.map Prod.fst).filter p :=
    List.filter_map.symm
  rw [hfilter, List.zipIdx_map_fst, List.map_filterMap] at h
  simpa [Function.comp_def] using h

/-! ## What sources list -/

/-- A component of the declaration satisfies the claim: its tags are accepted, and its type or the
type of the wrapped value reaches the claimed one. -/
def Declaration.Satisfies (u : Universe) (d : Declaration) (c : Claim) : Prop :=
  c.tags.Accepts d.tags ∧ (u.Reaches d.type c.type ∨ u.Wraps d.type c.type)

namespace Source

variable {u : Universe} {s s' : Source} {c : Claim} {t : TypeExpr} {d : Declaration} {n m : Nat}

/-- The source lists the types that its declaration reaches. -/
def Listed (u : Universe) (s : Source) : Prop :=
  ∃ budget, ofDeclaration? u budget s.toDeclaration = some s

theorem ofDeclaration?_eq_some (h : ofDeclaration? u n d = some s) :
    s.toDeclaration = d ∧ u.upward? n [d.type] = some s.ownTypes ∧ s.inner = u.unwrap? d.type ∧
      u.upward? n s.inner.toList = some s.innerTypes ∧ s.intercepted = u.intercepted? d.type := by
  obtain ⟨own, ho, h⟩ := Option.bind_eq_some_iff.1 h
  obtain ⟨types, hi, h⟩ := Option.bind_eq_some_iff.1 h
  obtain rfl := Option.some.inj h
  exact ⟨rfl, ho, rfl, hi, rfl⟩

theorem toDeclaration_of (h : ofDeclaration? u n d = some s) : s.toDeclaration = d :=
  (ofDeclaration?_eq_some h).1

theorem listed_of (h : ofDeclaration? u n d = some s) : s.Listed u := by
  obtain rfl := toDeclaration_of h
  exact ⟨n, h⟩

theorem ofDeclaration?_mono (hn : n ≤ m) (h : ofDeclaration? u n d = some s) :
    ofDeclaration? u m d = some s := by
  obtain ⟨own, ho, h⟩ := Option.bind_eq_some_iff.1 h
  obtain ⟨types, hi, h⟩ := Option.bind_eq_some_iff.1 h
  exact Option.bind_eq_some_iff.2 ⟨own, Universe.upward?_mono hn ho,
    Option.bind_eq_some_iff.2 ⟨types, Universe.upward?_mono hn hi, h⟩⟩

/-- A declaration has one source only, whatever budget it was made with. -/
theorem Listed.ext (h : s.Listed u) (h' : s'.Listed u) (e : s.toDeclaration = s'.toDeclaration) :
    s = s' := by
  obtain ⟨n, h⟩ := h
  obtain ⟨m, h'⟩ := h'
  have h₁ := ofDeclaration?_mono (Nat.le_max_left n m) h
  have h₂ := ofDeclaration?_mono (Nat.le_max_right n m) h'
  rw [e, h₂] at h₁
  exact (Option.some.inj h₁).symm

theorem Listed.mem_ownTypes (h : s.Listed u) : t ∈ s.ownTypes ↔ u.Reaches s.type t := by
  obtain ⟨n, h⟩ := h
  simpa using Universe.mem_upward?_iff (t := t) (ofDeclaration?_eq_some h).2.1

theorem Listed.mem_innerTypes (h : s.Listed u) : t ∈ s.innerTypes ↔ u.Wraps s.type t := by
  obtain ⟨n, h⟩ := h
  obtain ⟨-, -, hi, ht, -⟩ := ofDeclaration?_eq_some h
  rw [Universe.mem_upward?_iff ht, hi]
  simp [Universe.Wraps]

theorem fit?_eq_direct : s.fit? c = some .direct ↔ c.tags.Accepts s.tags ∧ c.type ∈ s.ownTypes := by
  unfold fit? fitType?
  split_ifs with h₁ h₂ h₃ <;> simp [*]

theorem fit?_eq_unwrapped : s.fit? c = some .unwrapped ↔
    c.tags.Accepts s.tags ∧ c.type ∉ s.ownTypes ∧ c.type ∈ s.innerTypes := by
  unfold fit? fitType?
  split_ifs with h₁ h₂ h₃ <;> simp [*]

theorem Listed.fits_iff (h : s.Listed u) : s.Fits c ↔ s.toDeclaration.Satisfies u c := by
  unfold Fits fit? fitType? Declaration.Satisfies
  rw [← h.mem_ownTypes, ← h.mem_innerTypes]
  split_ifs with h₁ h₂ h₃ <;> simp [*]

theorem Listed.intercepted_eq (h : s.Listed u) : s.intercepted = u.intercepted? s.type := by
  obtain ⟨n, h⟩ := h
  exact (ofDeclaration?_eq_some h).2.2.2.2

/-- Whether an interceptor applies is a question of what the type of the declaration reaches. -/
theorem Listed.isInterceptedBy_iff {i : Source} (h : s.Listed u) (hi : i.Listed u) :
    s.isInterceptedBy i = true ↔ u.Intercepts i.type s.type := by
  unfold isInterceptedBy Universe.Intercepts
  rw [hi.intercepted_eq]
  cases u.intercepted? i.type with
  | none => simp
  | some target => simp [h.mem_ownTypes]

theorem nodup_providedNames (s : Source) : s.providedNames.Nodup :=
  (Tags.ofList _).sorted.imp fun h => by rintro rfl; exact String.lt_irrefl _ h

theorem name_mem_providedNames (h : s.Fits c) : c.type.name ∈ s.providedNames := by
  rw [providedNames, Tags.mem_labels_ofList]
  refine List.mem_map_of_mem (f := TypeExpr.name) (List.mem_append.2 ?_)
  unfold Fits fit? fitType? at h
  split_ifs at h with h₁ h₂ h₃
  · exact .inl h₂
  · exact .inr h₃
  all_goals simp at h

end Source

/-! ## Declarations of a catalog -/

namespace Catalog

variable {u : Universe} {c c' : Catalog} {d : Draft} {s s' : Source} {n : Nat} {name : String}

/-- The declarations, sources first. -/
def declarations (c : Catalog) : List Declaration :=
  c.sources.map Source.toDeclaration ++ c.templates

/-- A catalog that began empty and took in drafts one after the other. -/
structure Sound (u : Universe) (c : Catalog) : Prop where
  /-- The next identity is above all others. -/
  fresh : ∀ d ∈ c.declarations, d.id < c.nextId
  /-- No two declarations have the same identity. -/
  distinct : (c.declarations.map Declaration.id).Nodup
  /-- The sources list the types that they reach. -/
  listed : ∀ s ∈ c.sources, s.Listed u
  /-- Sources are filed under the names that they provide. -/
  indexed : c.index = .ofLists (c.sources.map Source.providedNames)

/-- The source stands for a declaration of the catalog, which may be a template. -/
def Declares (u : Universe) (c : Catalog) (s : Source) : Prop :=
  s.Listed u ∧ s.toDeclaration ∈ c.declarations

/-- One more draft was declared. -/
inductive Added (u : Universe) (c : Catalog) (d : Draft) : Catalog → Prop
  /-- As a template. -/
  | template (h : (c.declare d).isTemplate = true) : Added u c d (c.addTemplate (c.declare d))
  /-- As a source. -/
  | source {s : Source} (h : (c.declare d).isTemplate = false) (hs : s.Listed u)
      (e : s.toDeclaration = c.declare d) : Added u c d (c.addSource s)

/-- What was declared before is still there. -/
structure Extends (c c' : Catalog) : Prop where
  /-- The sources. -/
  sources : c.sources <+: c'.sources
  /-- The templates. -/
  templates : c.templates <+: c'.templates

theorem Extends.refl (c : Catalog) : Extends c c := ⟨List.prefix_refl _, List.prefix_refl _⟩

theorem Extends.trans {c₁ c₂ c₃ : Catalog} (h : Extends c₁ c₂) (h' : Extends c₂ c₃) :
    Extends c₁ c₃ :=
  ⟨h.sources.trans h'.sources, h.templates.trans h'.templates⟩

theorem Extends.mem_declarations (h : Extends c c') {d : Declaration} (hd : d ∈ c.declarations) :
    d ∈ c'.declarations := by
  rcases List.mem_append.1 hd with hd | hd
  · obtain ⟨s, hs, rfl⟩ := List.mem_map.1 hd
    exact List.mem_append_left _ (List.mem_map_of_mem (h.sources.mem hs))
  · exact List.mem_append_right _ (h.templates.mem hd)

theorem Extends.declares (h : Extends c c') (hs : c.Declares u s) : c'.Declares u s :=
  ⟨hs.1, h.mem_declarations hs.2⟩

theorem declares_of_mem (h : c.Sound u) (hs : s ∈ c.sources) : c.Declares u s :=
  ⟨h.listed s hs, List.mem_append_left _ (List.mem_map_of_mem hs)⟩

/-- **Identities tell the declarations of a catalog apart.** -/
theorem Declares.ext (h : c.Sound u) (hs : c.Declares u s) (hs' : c.Declares u s')
    (e : s.id = s'.id) : s = s' :=
  hs.1.ext hs'.1 (List.inj_on_of_nodup_map h.distinct hs.2 hs'.2 e)

/-- **A look-up by identity finds the declaration of the identity.** -/
theorem Sound.get?_iff (h : c.Sound u) {id : Nat} {x : Declaration} :
    c.get? id = some x ↔ x ∈ c.declarations ∧ x.id = id := by
  have hget (y : Declaration) (hy : c.get? id = some y) : y ∈ c.declarations ∧ y.id = id := by
    rw [get?, Option.orElse_eq_orElse, Option.orElse_eq_or, Option.or_eq_some_iff] at hy
    rcases hy with hy | ⟨-, hy⟩
    · obtain ⟨s, hs, rfl⟩ := Option.map_eq_some_iff.1 hy
      exact ⟨List.mem_append_left _ (List.mem_map_of_mem (List.mem_of_find?_eq_some hs)),
        by simpa using List.find?_some hs⟩
    · exact ⟨List.mem_append_right _ (List.mem_of_find?_eq_some hy),
        by simpa using List.find?_some hy⟩
  refine ⟨hget x, fun ⟨hx, e⟩ => ?_⟩
  -- Something is found, and it can be nothing else.
  have hsome : (c.get? id).isSome = true := by
    simp only [get?, source?]
    rcases List.mem_append.1 hx with hx | hx
    · obtain ⟨s, hs, rfl⟩ := List.mem_map.1 hx
      have : (c.sources.find? (·.id == id)).isSome = true :=
        List.find?_isSome.2 ⟨s, hs, by simpa using e⟩
      simp [this]
    · have : (c.templates.find? (·.id == id)).isSome = true :=
        List.find?_isSome.2 ⟨x, hx, by simpa using e⟩
      simp [this]
  obtain ⟨y, hy⟩ := Option.isSome_iff_exists.1 hsome
  obtain ⟨hy', e'⟩ := hget y hy
  rw [hy, List.inj_on_of_nodup_map h.distinct hy' hx (e'.trans e.symm)]

/-- A look-up by name finds the sources that provide the name, in order. -/
theorem Sound.sourcesProviding (h : c.Sound u) (name : String) :
    c.sourcesProviding name = c.sources.filter (name ∈ ·.providedNames) := by
  have hp : c.index.positions name = c.sources.findIdxs (name ∈ ·.providedNames) := by
    rw [h.indexed, NameIndex.positions_ofLists, List.findIdxs_map]
    · rfl
    · simp only [List.mem_map, forall_exists_index, and_imp, forall_apply_eq_imp_iff₂]
      exact fun s _ => s.nodup_providedNames
  rw [Catalog.sourcesProviding, hp, filterMap_findIdxs]

theorem Sound.mem_sourcesProviding (h : c.Sound u) {claim : Claim} (hs : s ∈ c.sources)
    (hf : s.Fits claim) : s ∈ c.sourcesProviding claim.type.name := by
  rw [h.sourcesProviding]
  simpa [hs] using Source.name_mem_providedNames hf

theorem mem_sources_of_mem_sourcesProviding (hs : s ∈ c.sourcesProviding name) :
    s ∈ c.sources := by
  obtain ⟨i, -, hi⟩ := List.mem_filterMap.1 hs
  exact List.mem_of_getElem? hi

/-! ## One more declaration -/

theorem sound_empty (u : Universe) : Sound u ∅ where
  fresh := by simp [declarations, EmptyCollection.emptyCollection, empty]
  distinct := by simp [declarations, EmptyCollection.emptyCollection, empty]
  listed := by simp [EmptyCollection.emptyCollection, empty]
  indexed := rfl

theorem Added.extends (h : Added u c d c') : Extends c c' := by
  cases h with
  | template => exact ⟨List.prefix_refl _, List.prefix_append _ _⟩
  | source => exact ⟨List.prefix_append _ _, List.prefix_refl _⟩

theorem Added.nextId (h : Added u c d c') : c'.nextId = c.nextId + 1 := by
  cases h <;> rfl

/-- The declarations, in any order, are those from before and the new one. -/
theorem Added.perm (h : Added u c d c') :
    c'.declarations.Perm (c.declare d :: c.declarations) := by
  cases h with
  | template h =>
    simp only [declarations, addTemplate, ← List.append_assoc]
    exact List.perm_append_singleton _ _
  | source h hs e =>
    simp only [declarations, addSource, List.map_append, List.map_cons, List.map_nil, e]
    rw [List.append_assoc]
    exact List.perm_middle

theorem Added.mem_declarations (h : Added u c d c') {x : Declaration} :
    x ∈ c'.declarations ↔ x = c.declare d ∨ x ∈ c.declarations := by
  rw [h.perm.mem_iff, List.mem_cons]

theorem Added.mem_sources (h : Added u c d c') (hs : s ∈ c'.sources) :
    s ∈ c.sources ∨ s.toDeclaration = c.declare d := by
  cases h with
  | template => exact .inl hs
  | source h hl e =>
    rcases List.mem_append.1 hs with hs | hs
    · exact .inl hs
    · rw [List.mem_singleton.1 hs]
      exact .inr e

/-- **One more declaration keeps a catalog sound.** -/
theorem Added.sound (h : Added u c d c') (hc : c.Sound u) : c'.Sound u where
  fresh x hx := by
    rw [h.nextId]
    rcases h.mem_declarations.1 hx with rfl | hx
    · exact Nat.lt_succ_self _
    · exact Nat.lt_succ_of_lt (hc.fresh x hx)
  distinct := by
    rw [(h.perm.map _).nodup_iff, List.map_cons, List.nodup_cons]
    refine ⟨fun hm => ?_, hc.distinct⟩
    obtain ⟨x, hx, e⟩ := List.mem_map.1 hm
    have : x.id = c.nextId := e
    have := hc.fresh x hx
    omega
  listed := by
    cases h with
    | template => exact hc.listed
    | source h hs e =>
      intro x hx
      rcases List.mem_append.1 hx with hx | hx
      · exact hc.listed x hx
      · rwa [List.mem_singleton.1 hx]
  indexed := by
    cases h with
    | template => exact hc.indexed
    | source h hs e =>
      simp only [addSource, List.map_append, List.map_cons, List.map_nil]
      rw [NameIndex.ofLists_concat, List.length_map, hc.indexed]

theorem added_of_register? {x : Declaration} (h : c.register? u n d = some (x, c')) :
    x = c.declare d ∧ Added u c d c' := by
  unfold register? at h
  dsimp only at h
  split at h <;> rename_i ht
  · obtain ⟨rfl, rfl⟩ := Prod.mk.inj (Option.some.inj h)
    exact ⟨rfl, .template ht⟩
  · obtain ⟨s, hs, h⟩ := Option.bind_eq_some_iff.1 h
    obtain ⟨rfl, rfl⟩ := Prod.mk.inj (Option.some.inj h)
    exact ⟨rfl, .source (by simpa using ht) (Source.listed_of hs) (Source.toDeclaration_of hs)⟩

theorem added_of_registerSource? (h : c.registerSource? u n d = some (s, c')) :
    s.Listed u ∧ s.toDeclaration = c.declare d ∧ Added u c d c' := by
  obtain ⟨x, hs, h⟩ := Option.bind_eq_some_iff.1 h
  obtain ⟨rfl, rfl⟩ := Prod.mk.inj (Option.some.inj h)
  refine ⟨Source.listed_of hs, Source.toDeclaration_of hs, ?_⟩
  split <;> rename_i ht
  · exact .template ht
  · exact .source (by simpa using ht) (Source.listed_of hs) (Source.toDeclaration_of hs)

/-! ## Larger budgets -/

theorem register?_mono {m : Nat} {x : Declaration × Catalog} (hn : n ≤ m)
    (h : c.register? u n d = some x) : c.register? u m d = some x := by
  unfold register? at h ⊢
  dsimp only at h ⊢
  split at h <;> rename_i ht
  · rw [if_pos ht]
    exact h
  · rw [if_neg ht]
    obtain ⟨s, hs, h⟩ := Option.bind_eq_some_iff.1 h
    exact Option.bind_eq_some_iff.2 ⟨s, Source.ofDeclaration?_mono hn hs, h⟩

theorem registerSource?_mono {m : Nat} {x : Source × Catalog} (hn : n ≤ m)
    (h : c.registerSource? u n d = some x) : c.registerSource? u m d = some x := by
  obtain ⟨s, hs, h⟩ := Option.bind_eq_some_iff.1 h
  exact Option.bind_eq_some_iff.2 ⟨s, Source.ofDeclaration?_mono hn hs, h⟩

end Catalog

end Wiring
