import Wiring.Proofs.Catalog
import Wiring.Resolution.Decision
/-!
# What look-ups find

What is found for a claim satisfies it, and what is not found does not exist.

* `State.mem_resolvedMatches` and `State.mem_declaredMatches` say what the matches of a claim are;
  the second needs a sound catalog, whose index then misses no source.
* `pick_eq_absent`, `pick_eq_one_iff` and `pick_eq_ambiguous_iff`: a choice is absent only if there
  is no candidate, takes the one that stands out, and is ambiguous if nothing tells them apart.
* `Claim.mem_specializations` and `Claim.not_unifies_of_specializations` say the same of templates.
-/

namespace Wiring

/-! ## Choosing one candidate -/

section Pick

variable {α : Type} {c : Claim} {requester : Source} {source : α → Source} {l : List α} {a : α}
  {ch : Choice α}

theorem pick_eq_absent (h : pick c source l = .absent) : l = [] := by
  unfold pick at h
  split at h
  · rfl
  · cases h
  · split at h
    · cases h
    · split at h <;> cases h

/-- One candidate stands out among all. -/
inductive StandsOut (c : Claim) (source : α → Source) (l : List α) (a : α) : Prop
  /-- There is no other. -/
  | only (h : l = [a])
  /-- All others are defaults. -/
  | nonDefault (h : (l.filter fun a => !(source a).isDefault) = [a])
  /-- All others are of another type, and defaults do not decide. -/
  | exact (hn : (l.filter fun a => !(source a).isDefault).length ≠ 1)
      (h : (l.filter fun a => (source a).isExact c) = [a])

theorem StandsOut.mem (h : StandsOut c source l a) : a ∈ l := by
  cases h with
  | only h => exact h ▸ List.mem_singleton_self a
  | nonDefault h | exact hn h => exact List.mem_of_mem_filter (h ▸ List.mem_singleton_self a)

/-- **A candidate is taken exactly if it stands out.** -/
theorem pick_eq_one_iff : pick c source l = .one a ↔ StandsOut c source l a := by
  unfold pick
  constructor
  · intro h
    split at h
    · cases h
    · cases h
      exact .only rfl
    · split at h <;> rename_i hd
      · cases h
        exact .nonDefault hd
      · split at h <;> rename_i he
        · cases h
          refine .exact (fun hn => ?_) he
          obtain ⟨x, hx⟩ := List.length_eq_one_iff.1 hn
          exact hd x hx
        · cases h
  · intro h
    split
    · cases h.mem
    · rw [List.mem_singleton.1 h.mem]
    · next hone =>
      cases h with
      | only h => exact absurd h (hone a)
      | nonDefault h => rw [h]
      | exact hn h =>
        split
        · next x hx => exact absurd (congrArg List.length hx) hn
        · rw [h]

theorem mem_of_pick_eq_one (h : pick c source l = .one a) : a ∈ l := (pick_eq_one_iff.1 h).mem

/-- Nothing tells the candidates apart: there are several, and among them neither a single one that
is no default nor a single one of exactly the claimed type. -/
structure Tied (c : Claim) (source : α → Source) (l : List α) : Prop where
  /-- There are several. -/
  several : 2 ≤ l.length
  /-- Not exactly one is no default. -/
  nonDefault : (l.filter fun a => !(source a).isDefault).length ≠ 1
  /-- Not exactly one is of exactly the claimed type. -/
  exact : (l.filter fun a => (source a).isExact c).length ≠ 1

instance : Decidable (Tied c source l) :=
  decidable_of_iff (2 ≤ l.length ∧ (l.filter fun a => !(source a).isDefault).length ≠ 1 ∧
      (l.filter fun a => (source a).isExact c).length ≠ 1)
    ⟨fun ⟨h₁, h₂, h₃⟩ => ⟨h₁, h₂, h₃⟩, fun ⟨h₁, h₂, h₃⟩ => ⟨h₁, h₂, h₃⟩⟩

/-- **Candidates are equally good exactly if nothing tells them apart.** -/
theorem pick_eq_ambiguous_iff {all : List α} :
    pick c source l = .ambiguous all ↔ all = l ∧ Tied c source l := by
  -- A list that matches no pattern `[x]` has not exactly one entry.
  have hne {l' : List α} (h : ∀ x, l' = [x] → False) : l'.length ≠ 1 := fun hl => by
    obtain ⟨x, hx⟩ := List.length_eq_one_iff.1 hl
    exact h x hx
  unfold pick
  constructor
  · intro h
    split at h
    · cases h
    · cases h
    · next h₀ h₁ =>
      split at h <;> rename_i hd
      · cases h
      · split at h <;> rename_i he
        · cases h
        · cases h
          refine ⟨rfl, ?_, hne hd, hne he⟩
          have := List.length_pos_iff.2 h₀
          have := hne h₁
          omega
  · rintro ⟨rfl, ht⟩
    split
    · cases ht.several
    · exact absurd ht.several (by simp)
    · split
      · next x hx => exact absurd (congrArg List.length hx) ht.nonDefault
      · split
        · next x hx => exact absurd (congrArg List.length hx) ht.exact
        · rfl

theorem Tied.not_standsOut (h : Tied c source l) : ¬ StandsOut c source l a := fun ha => by
  have hp := pick_eq_one_iff.2 ha
  rw [pick_eq_ambiguous_iff.2 ⟨rfl, h⟩] at hp
  cases hp

theorem settle_eq_some (h : ch.settle c requester source = .ok (some a)) : ch = .one a := by
  cases ch <;> simp_all [Choice.settle]

theorem settle_eq_none (h : ch.settle c requester source = .ok none) : ch = .absent := by
  cases ch <;> simp_all [Choice.settle]

end Pick

/-! ## Finished components and declarations -/

namespace State

variable {u : Universe} {s : State} {c : Claim} {d : Source} {m : Match} {id i : Nat}

theorem exists_of_position? (h : s.position? id = some i) :
    ∃ n, s.resolved[i]? = some n ∧ n.source.id = id := by
  obtain ⟨hi, he, -⟩ := List.findIdx?_eq_some_iff_getElem.1 h
  exact ⟨s.resolved[i], List.getElem?_eq_getElem hi, by simpa using he⟩

theorem position?_eq_none : s.position? id = none ↔ ∀ n ∈ s.resolved, n.source.id ≠ id := by
  simp [position?, List.findIdx?_eq_none_iff]

theorem isResolved_eq_false : s.isResolved id = false ↔ ∀ n ∈ s.resolved, n.source.id ≠ id := by
  rw [isResolved, Option.isSome_eq_false_iff, Option.isNone_iff_eq_none, position?_eq_none]

theorem isResolved_iff : s.isResolved id = true ↔ ∃ n ∈ s.resolved, n.source.id = id := by
  rw [← Bool.not_eq_false, isResolved_eq_false]
  simp

/-- A match is a finished component, no proxy, that fits the claim in the way recorded. -/
theorem exists_of_mem_resolvedMatches (h : m ∈ s.resolvedMatches c) :
    ∃ n, s.resolved[m.position]? = some n ∧ n.source.isProxy = false ∧
      n.source.fit? c = some m.fit := by
  obtain ⟨i, -, h⟩ := List.mem_filterMap.1 h
  obtain ⟨n, hn, h⟩ := Option.bind_eq_some_iff.1 h
  split at h <;> rename_i hp
  · cases h
  · obtain ⟨f, hf, h⟩ := Option.bind_eq_some_iff.1 h
    cases h
    exact ⟨n, hn, by simpa using hp, hf⟩

theorem mem_sources_of_mem_declaredMatches (h : d ∈ s.declaredMatches c) :
    d ∈ s.catalog.sources ∧ d.isProxy = false ∧ d.Fits c := by
  obtain ⟨hd, h⟩ := List.mem_filter.1 h
  exact ⟨Catalog.mem_sources_of_mem_sourcesProviding hd, by simpa using h⟩

theorem mem_declaredMatches (h : s.catalog.Sound u) :
    d ∈ s.declaredMatches c ↔ d ∈ s.catalog.sources ∧ d.isProxy = false ∧ d.Fits c := by
  refine ⟨mem_sources_of_mem_declaredMatches, fun ⟨hd, hp, hf⟩ => ?_⟩
  exact List.mem_filter.2 ⟨h.mem_sourcesProviding hd hf, by simp [hp, hf]⟩

theorem mem_of_awaited (h : s.awaited c = some d) :
    d ∈ s.declaredMatches c ∧ s.isResolved d.id = false ∧ d.isDefault = false := by
  have hd := List.find?_some h
  exact ⟨List.mem_of_find?_eq_some h, by simp_all⟩

/-- If nothing is awaited, then all that satisfies the claim is finished, except for defaults. -/
theorem isResolved_of_awaited (h : s.awaited c = none) (hd : d ∈ s.declaredMatches c)
    (hn : d.isDefault = false) : s.isResolved d.id = true := by
  simpa [hn] using List.find?_eq_none.1 h d hd

theorem mem_of_findResolved (h : s.findResolved c = .one m) : m ∈ s.resolvedMatches c := by
  unfold findResolved at h
  split at h <;> rename_i hp
  · split at h
    · cases h
    · cases h
      exact mem_of_pick_eq_one hp
  · exact mem_of_pick_eq_one h

end State

/-! ## Specialized templates -/

theorem map_some_of_mapM {α β : Type} {f : α → Option β} {l : List α} {l' : List β}
    (h : l.mapM f = some l') : l'.map some = l.map f := by
  induction l generalizing l' with
  | nil =>
    obtain rfl : [] = l' := by simpa using h
    rfl
  | cons a l ih =>
    rw [List.mapM_cons] at h
    obtain ⟨b, hb, h⟩ := Option.bind_eq_some_iff.1 h
    obtain ⟨bs, hbs, h⟩ := Option.bind_eq_some_iff.1 h
    cases h
    rw [List.map_cons, List.map_cons, hb, ih hbs]

theorem mapM_eq_some {α β : Type} {f : α → Option β} {g : α → β} {l : List α}
    (h : ∀ a ∈ l, f a = some (g a)) : l.mapM f = some (l.map g) := by
  induction l with
  | nil => rfl
  | cons a l ih =>
    have hl := ih fun x hx => h x (List.mem_cons_of_mem a hx)
    rw [List.mapM_cons, h a List.mem_cons_self, hl]
    rfl

/-- A template whose type unifies with a claim that accepts its tags is specialized for it. -/
theorem Declaration.specialize?_of_unify? {u : Universe} {n : Nat} {c : Claim} {t : Declaration}
    {σ : Substitution} (ha : c.tags.Accepts t.tags)
    (hu : u.unify? n t.type c.type = some (some σ)) :
    t.specialize? u n c = some (some (t.instantiate σ)) := by
  rw [specialize?, if_pos ha, hu]
  rfl

namespace Claim

variable {u : Universe} {c : Claim} {d : Draft} {n : Nat} {ds : List Draft} {t : Declaration}
  {ts : List Declaration}

theorem mem_of_mem_narrow (h : d ∈ c.narrow ds) : d ∈ ds := by
  unfold narrow at h
  split at h
  · exact h
  · exact h
  · split at h
    · split at h
      · exact h
      · exact List.mem_of_mem_filter h
    · exact List.mem_of_mem_filter h

theorem narrow_eq_nil (h : c.narrow ds = []) : ds = [] := by
  unfold narrow at h
  split at h
  · exact h
  · cases h
  · split at h
    · split at h
      · exact h
      · exact absurd h ‹_›
    · exact absurd h ‹_›

/-- All of several specialized templates are kept, if none has exactly the claimed type and none is
a default. -/
theorem narrow_eq_self (he : ∀ d ∈ ds, d.type ≠ c.type) (hd : ∀ d ∈ ds, d.isDefault = false) :
    c.narrow ds = ds := by
  have hexact : (ds.filter fun d => Decidable.decide (d.type = c.type)) = [] :=
    List.filter_eq_nil_iff.2 fun d hm => by simpa using he d hm
  have hothers : (ds.filter fun d => !d.isDefault) = ds :=
    List.filter_eq_self.2 fun d hm => by simp [hd d hm]
  unfold narrow
  split
  · rfl
  · rfl
  · rw [hexact]
    dsimp only
    split
    · rfl
    · exact hothers

/-- If all templates can be specialized, then the better ones are kept. -/
theorem specializations?_of_mapM (h : ts.mapM (fun t => t.specialize? u n c) = some (ds.map some)) :
    c.specializations? u n ts = some (c.narrow ds) := by
  have hfound : (ds.map some).filterMap id = ds := by simp [List.filterMap_map]
  rw [specializations?, h]
  exact congrArg some (congrArg c.narrow hfound)

/-- No template is specialized for a claim that accepts the tags of none. -/
theorem specializations?_eq_nil (h : ∀ t ∈ ts, ¬ c.tags.Accepts t.tags) :
    c.specializations? u n ts = some [] := by
  have hnone : ∀ t ∈ ts, t.specialize? u n c = some none := fun t ht => by
    rw [Declaration.specialize?, if_neg (h t ht)]
    rfl
  have hfound : (ts.map fun _ => (none : Option Draft)).filterMap id = [] := by
    simp [List.filterMap_map]
  rw [specializations?, mapM_eq_some hnone]
  exact congrArg some (congrArg c.narrow hfound)

/-- What a template is specialized to, for a claim that its type unifies with. -/
theorem mem_specializations (h : c.specializations? u n ts = some ds) (hd : d ∈ ds) :
    ∃ t ∈ ts, ∃ σ, c.tags.Accepts t.tags ∧ u.unify? n t.type c.type = some (some σ) ∧
      d = t.instantiate σ := by
  obtain ⟨found, hf, h⟩ := Option.bind_eq_some_iff.1 h
  cases h
  obtain ⟨o, ho, rfl⟩ := List.mem_filterMap.1 (mem_of_mem_narrow hd)
  have hm : some (some d) ∈ ts.map fun t => t.specialize? u n c := by
    rw [← map_some_of_mapM hf]
    exact List.mem_map_of_mem ho
  obtain ⟨t, ht, hs⟩ := List.mem_map.1 hm
  unfold Declaration.specialize? at hs
  split at hs <;> rename_i ha
  · obtain ⟨σ?, hu, hs⟩ := Option.bind_eq_some_iff.1 hs
    obtain ⟨σ, rfl, rfl⟩ := Option.map_eq_some_iff.1 (Option.some.inj hs)
    exact ⟨t, ht, σ, ha, hu, rfl⟩
  · cases hs

/-- If no template is specialized, then none unifies with a claim that accepts its tags. -/
theorem not_unifies_of_specializations (h : c.specializations? u n ts = some []) (ht : t ∈ ts)
    (ha : c.tags.Accepts t.tags) : ¬ u.Unifies t.type c.type := by
  obtain ⟨found, hf, h⟩ := Option.bind_eq_some_iff.1 h
  have hn := List.filterMap_eq_nil_iff.1 (narrow_eq_nil (Option.some.inj h))
  have hm : t.specialize? u n c ∈ found.map some := by
    rw [map_some_of_mapM hf]
    exact List.mem_map_of_mem ht
  obtain ⟨o, ho, hs⟩ := List.mem_map.1 hm
  obtain rfl : o = none := hn o ho
  rw [Declaration.specialize?, if_pos ha] at hs
  obtain ⟨σ?, hu, hs⟩ := Option.bind_eq_some_iff.1 hs.symm
  cases σ? with
  | none => exact Universe.not_unifies_of_unify? hu
  | some σ => cases hs

end Claim

end Wiring
