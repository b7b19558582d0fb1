import Wiring.Proofs.Resolution.Preference
/-!
# Claims that several declarations satisfy equally well

If nothing tells the declarations that satisfy a claim apart, then one expects that the claim is
reported as ambiguous. But finished components are looked at first and on their own, and these are
only some of the declarations. If one of them stands out among those finished, and is no default
that gives way to another declaration, then the claim is bound to it. So it depends on the order of
claims whether an ambiguity is reported (`Resolver.ambiguity_depends_on_order`).

* `State.findResolved_eq_one_iff` says which finished component a claim favours.
* `Resolver.ambiguity_is_reported`: a claim that the declarations leave open is bound to the
  finished component that it favours, and is ambiguous if it favours none. It favours none if none
  of the declarations that satisfy it are finished, and none if all of them are.
-/

namespace Wiring

/-- Whether candidates are tied depends on what their declarations are, in any order. -/
theorem Tied.perm {α β : Type} {c : Claim} {source : α → Source} {source' : β → Source}
    {l : List α} {l' : List β} (h : Tied c source l) (hp : (l'.map source').Perm (l.map source)) :
    Tied c source' l' := by
  have hcount (p : Source → Bool) :
      (l'.filter fun b => p (source' b)).length = (l.filter fun a => p (source a)).length := by
    have := hp.countP_eq p
    rwa [List.countP_map, List.countP_map, List.countP_eq_length_filter,
      List.countP_eq_length_filter] at this
  have hlength : l'.length = l.length := by simpa using hp.length_eq
  refine ⟨hlength ▸ h.several, ?_, ?_⟩
  · rw [hcount fun d => !d.isDefault]
    exact h.nonDefault
  · rw [hcount fun d => d.isExact c]
    exact h.exact

/-- Whether a candidate is taken. -/
def Choice.isOne {α : Type} : Choice α → Bool
  | .one _ => true
  | .absent | .ambiguous _ => false

theorem Choice.exists_of_isOne {α : Type} {choice : Choice α} (h : choice.isOne = true) :
    ∃ a, choice = .one a := by
  cases choice with
  | one a => exact ⟨a, rfl⟩
  | absent | ambiguous all => cases h

namespace State

variable {u : Universe} {s : State} {c : Claim} {d : Source} {m : Match} {ms : List Match}

/-! ## The declarations that satisfy a claim -/

/-- All sources that satisfy a claim and are no proxies, in order. -/
def candidates (s : State) (c : Claim) : List Source :=
  s.catalog.sources.filter fun d => !d.isProxy && decide (d.Fits c)

theorem mem_candidates :
    d ∈ s.candidates c ↔ d ∈ s.catalog.sources ∧ d.isProxy = false ∧ d.Fits c := by
  simp [candidates]

theorem nodup_candidates (h : s.catalog.Sound u) : (s.candidates c).Nodup :=
  (nodup_sources h).filter _

/-- The look-up by name misses none of them. -/
theorem declaredMatches_eq (h : s.catalog.Sound u) (c : Claim) :
    s.declaredMatches c = s.candidates c := by
  rw [declaredMatches, h.sourcesProviding, List.filter_filter]
  refine List.filter_congr fun d hd => ?_
  by_cases hf : d.Fits c
  · simp [hf, Source.name_mem_providedNames hf]
  · simp [hf]

theorem awaited_eq_none_iff (h : s.catalog.Sound u) :
    s.awaited c = none ↔ ∀ d ∈ s.candidates c, d.isDefault = false → s.isResolved d.id = true := by
  rw [awaited, declaredMatches_eq h, List.find?_eq_none]
  simp

/-! ## The finished component that a claim favours -/

/-- One of the finished components that satisfy the claim stands out among them. If it is a default,
then all declarations to which it would give way are finished. -/
structure Favours (s : State) (c : Claim) (m : Match) : Prop where
  /-- It stands out. -/
  standsOut : StandsOut c Match.source (s.resolvedMatches c) m
  /-- It gives way to none that is still to be built. -/
  unshadowed : m.source.isDefault = true →
    ∀ d ∈ s.candidates c, d.isDefault = false → s.isResolved d.id = true

/-- **A finished component is found exactly if the claim favours it.** -/
theorem findResolved_eq_one_iff (h : s.catalog.Sound u) :
    s.findResolved c = .one m ↔ s.Favours c m := by
  have hgive : ¬ (m.source.isDefault && (s.awaited c).isSome) = true ↔
      (m.source.isDefault = true → s.awaited c = none) := by
    cases m.source.isDefault <;> cases s.awaited c <;> simp
  constructor
  · intro hm
    unfold findResolved at hm
    split at hm
    · next m' hp =>
      split at hm
      · cases hm
      · next hg =>
        cases hm
        exact ⟨pick_eq_one_iff.1 hp, fun hd => (awaited_eq_none_iff h).1 (hgive.1 hg hd)⟩
    · next hone => exact absurd hm (hone m)
  · intro hm
    have hg := hgive.2 fun hd => (awaited_eq_none_iff h).2 (hm.unshadowed hd)
    rw [findResolved, pick_eq_one_iff.2 hm.standsOut]
    exact if_neg hg

/-- Finished components are found equally good only if they are tied. -/
theorem tied_of_findResolved (h : s.findResolved c = .ambiguous ms) :
    ms = s.resolvedMatches c ∧ Tied c Match.source (s.resolvedMatches c) := by
  unfold findResolved at h
  split at h
  · split at h <;> cases h
  · exact pick_eq_ambiguous_iff.1 h

/-- The look-up among finished components finds the declarations that satisfy the claim and are
finished. -/
theorem mem_map_resolvedMatches (hx : s.Indexed) (hi : s.Identified u) :
    d ∈ (s.resolvedMatches c).map Match.source ↔
      d ∈ s.candidates c ∧ s.isResolved d.id = true := by
  rw [List.mem_map, mem_candidates]
  constructor
  · rintro ⟨m, hm, rfl⟩
    obtain ⟨⟨es, hn⟩, hs, hp, hf⟩ := (mem_resolvedMatches hx hi).1 hm
    exact ⟨⟨hs, hp, Option.isSome_iff_exists.2 ⟨_, hf⟩⟩,
      isResolved_iff.2 ⟨_, List.mem_of_getElem? hn, rfl⟩⟩
  · rintro ⟨⟨hs, hp, hf⟩, hr⟩
    obtain ⟨n, hn, e⟩ := isResolved_iff.1 hr
    obtain ⟨i, hi'⟩ := List.mem_iff_getElem?.1 hn
    obtain rfl := hi.source_eq hn (Catalog.declares_of_mem hi.sound hs) e
    obtain ⟨fit, hf⟩ := Option.isSome_iff_exists.1 hf
    exact ⟨⟨i, n.source, fit⟩, (mem_resolvedMatches hx hi).2 ⟨⟨n.edges, hi'⟩, hs, hp, hf⟩, rfl⟩

/-- It finds each of them once. -/
theorem source_injOn_resolvedMatches (hx : s.Indexed) (hi : s.Identified u) {m m' : Match}
    (hm : m ∈ s.resolvedMatches c) (hm' : m' ∈ s.resolvedMatches c) (e : m.source = m'.source) :
    m = m' := by
  obtain ⟨⟨es, hn⟩, -, -, hf⟩ := (mem_resolvedMatches hx hi).1 hm
  obtain ⟨⟨es', hn'⟩, -, -, hf'⟩ := (mem_resolvedMatches hx hi).1 hm'
  have hpos : s.position? m.source.id = some m.position := hi.position?_iff.2 ⟨_, hn, rfl⟩
  rw [hi.position?_iff.2 ⟨_, hn', congrArg (·.id) e.symm⟩, Option.some.injEq] at hpos
  rw [e, hf', Option.some.injEq] at hf
  cases m
  cases m'
  simp_all

/-- Once all declarations that satisfy a claim are finished, it finds all of them. -/
theorem perm_resolvedMatches (hx : s.Indexed) (hi : s.Identified u)
    (hall : ∀ d ∈ s.candidates c, s.isResolved d.id = true) :
    ((s.resolvedMatches c).map Match.source).Perm (s.candidates c) := by
  have hinj : ((s.resolvedMatches c).map Match.source).Nodup :=
    (nodup_resolvedMatches hx).map_on fun _ hm _ hm' => source_injOn_resolvedMatches hx hi hm hm'
  refine (List.perm_ext_iff_of_nodup hinj (nodup_candidates hi.sound)).2 fun d => ?_
  rw [mem_map_resolvedMatches hx hi]
  exact ⟨And.left, fun hd => ⟨hd, hall d hd⟩⟩

/-- A claim that the declarations leave open favours none before any of them is finished, and none
after all of them are. -/
theorem not_favours_of_tied (hx : s.Indexed) (hi : s.Identified u)
    (ht : Tied c id (s.candidates c))
    (hall : (∀ d ∈ s.candidates c, s.isResolved d.id = false) ∨
      ∀ d ∈ s.candidates c, s.isResolved d.id = true) : ¬ s.Favours c m := by
  intro hm
  rcases hall with hnone | hall
  · have hm := List.mem_map_of_mem (f := Match.source) hm.standsOut.mem
    obtain ⟨hc, hr⟩ := (mem_map_resolvedMatches hx hi).1 hm
    simp [hnone _ hc] at hr
  · refine Tied.not_standsOut (ht.perm ?_) hm.standsOut
    rw [List.map_id]
    exact perm_resolvedMatches hx hi hall

end State

/-! ## What a claim that is left open leads to -/

namespace Resolver

variable {r : Resolver} {s : State} {q : Source} {c : Claim} {m : Match} {n round : Nat}

/-- A claim is bound to the finished component that it favours. -/
theorem fromDeclarations_of_favours (hs : s.catalog.Sound r.types) (h : s.Favours c m) :
    fromDeclarations s q c = .ok (some (.bind (.single c m.target))) := by
  rw [fromDeclarations, (State.findResolved_eq_one_iff hs).2 h]
  rfl

/-- A claim that the declarations leave open, and that favours no finished component, is ambiguous,
be it among these or among all declarations. -/
theorem fromDeclarations_of_tied (hs : s.catalog.Sound r.types)
    (ht : Tied c id (s.candidates c)) (hn : ∀ m, ¬ s.Favours c m) :
    ∃ names, 2 ≤ names.length ∧ (names = (s.resolvedMatches c).map (·.source.render) ∨
      names = (s.candidates c).map (·.render)) ∧
      fromDeclarations s q c = .error (.failure (c.ambiguity q names)) := by
  cases hr : s.findResolved c with
  | absent =>
    refine ⟨_, by simpa using ht.several, .inr rfl, ?_⟩
    have hd : s.findDeclaration c = .ambiguous (s.candidates c) := by
      rw [State.findDeclaration, State.declaredMatches_eq hs]
      exact pick_eq_ambiguous_iff.2 ⟨rfl, ht⟩
    rw [fromDeclarations, hr, hd]
    rfl
  | one m => exact absurd ((State.findResolved_eq_one_iff hs).1 hr) (hn m)
  | ambiguous ms =>
    obtain ⟨rfl, ht'⟩ := State.tied_of_findResolved hr
    refine ⟨_, by simpa using ht'.several, .inl rfl, ?_⟩
    rw [fromDeclarations, hr]
    rfl

/-- **Ambiguities are reported, unless one of the finished components stands out.** A claim for
which all declarations together are ambiguous is reported as ambiguous, except if it favours a
finished component: then it is bound to that one. It favours none if none of the declarations that
satisfy it are finished, or all. -/
theorem ambiguity_is_reported (r : Resolver) (drafts : List Draft) (round : Nat)
    (goal : Option Claim) (s : State) (hs : Reachable r drafts round goal s) (c : Claim)
    (all : List Source) (h : pick c id (s.candidates c) = .ambiguous all) (fuel : Nat)
    (q : Source) (stack : List Frame) :
    (∀ m, s.Favours c m →
      r.decide fuel round { s with stack } q c = .ok (.bind (.single c m.target))) ∧
    ((∀ m, ¬ s.Favours c m) →
      ∃ names, 2 ≤ names.length ∧ (names = (s.resolvedMatches c).map (·.source.render) ∨
        names = all.map (·.render)) ∧
        r.decide fuel round { s with stack } q c =
          .error (.failure (c.ambiguity q names))) ∧
    ((∀ d ∈ all, s.isResolved d.id = false) ∨ (∀ d ∈ all, s.isResolved d.id = true) →
      ∀ m, ¬ s.Favours c m) := by
  obtain ⟨rfl, ht⟩ := pick_eq_ambiguous_iff.1 h
  have hi := hs.identified
  -- Look-ups do not depend on the stack.
  have hstack : fromDeclarations { s with stack } q c = fromDeclarations s q c := rfl
  refine ⟨fun m hm => ?_, fun hn => ?_, fun hall m => ?_⟩
  · exact decide_of_declarations (hstack.trans (fromDeclarations_of_favours hi.sound hm))
  · obtain ⟨names, hl, hnames, he⟩ := fromDeclarations_of_tied (q := q) hi.sound ht hn
    exact ⟨names, hl, hnames, decide_of_declarations_error (hstack.trans he)⟩
  · exact State.not_favours_of_tied hs.indexed hi ht hall

/-! ## Two stores -/

/-- A round that is tried and reports an ambiguity reports some. -/
theorem exists_ambiguous {α : Type} {x : Except Interrupt α}
    (h : (match x with
      | .error (.failure (.ambiguous _ _ _)) => true
      | _ => false) = true) :
    ∃ claim requester names, x = .error (.failure (.ambiguous claim requester names)) := by
  match x, h with
  | .error (.failure (.ambiguous claim requester names)), _ =>
    exact ⟨claim, requester, names, rfl⟩

/-- A store is an interface, of which there are two kinds. -/
def stores : Resolver where
  types.types := .ofList
    [("Disk", { supertypes := [.named "Store" []] }),
     ("Memory", { supertypes := [.named "Store" []] }), ("Store", { kind := .interface })]

/-- The claim of a store of any kind. -/
def storeClaim : Claim where
  type := .named "Store" []

/-- The claim of a store of one kind. -/
def memoryClaim : Claim where
  type := .named "Memory" []

/-- An application with the claims, and a store of each kind. -/
def storeDrafts (claims : List Claim) : List Draft :=
  [{ name := "app", type := .named "App" [], isRoot := true, claims },
   { name := "memory", type := .named "Memory" [] },
   { name := "disk", type := .named "Disk" [] }]

/-- As long as no store is finished, the claim of a store is reported as ambiguous. -/
theorem ambiguity_is_reported_stores : ∃ s all,
    Reachable stores (storeDrafts [storeClaim]) 0 none s ∧
    pick storeClaim id (s.candidates storeClaim) = .ambiguous all ∧
    ∀ q, ∃ names, 2 ≤ names.length ∧
      stores.decide 50 0 s q storeClaim = .error (.failure (storeClaim.ambiguity q names)) := by
  obtain ⟨s, hs, h⟩ := exists_reachable stores 50 (storeDrafts [storeClaim]) 0 1
    (fun s => Decidable.decide (Tied storeClaim id (s.candidates storeClaim) ∧
      ∀ d ∈ s.candidates storeClaim, s.isResolved d.id = false))
    (by decide +kernel)
  obtain ⟨ht, hr⟩ := of_decide_eq_true h
  have hp := pick_eq_ambiguous_iff.2 ⟨rfl, ht⟩
  refine ⟨s, _, hs, hp, fun q => ?_⟩
  obtain ⟨-, hreport, hnone⟩ :=
    ambiguity_is_reported stores _ 0 none s hs storeClaim _ hp 50 q s.stack
  obtain ⟨names, hl, -, he⟩ := hreport (hnone (.inl hr))
  exact ⟨names, hl, he⟩

/-- If the application claims the store of one kind first, then its claim of a store of any kind is
bound to that one, although nothing tells the two kinds apart. With the claims in the other order
there is no plan. -/
theorem ambiguity_depends_on_order :
    (∃ s all m, Reachable stores (storeDrafts [memoryClaim, storeClaim]) 0 none s ∧
      pick storeClaim id (s.candidates storeClaim) = .ambiguous all ∧
      ∀ q, stores.decide 50 0 s q storeClaim = .ok (.bind (.single storeClaim m))) ∧
    (∃ p, stores.resolve 50 (storeDrafts [memoryClaim, storeClaim]) 0 = .ok (.resolved p)) ∧
    ∃ claim requester names, stores.resolve 50 (storeDrafts [storeClaim, memoryClaim]) 0 =
      .error (.failure (.ambiguous claim requester names)) := by
  refine ⟨?_, ?_, exists_ambiguous (by decide +kernel)⟩
  · obtain ⟨s, hs, h⟩ := exists_reachable stores 50 (storeDrafts [memoryClaim, storeClaim]) 0 4
      (fun s => Decidable.decide (Tied storeClaim id (s.candidates storeClaim)) &&
        (s.findResolved storeClaim).isOne)
      (by decide +kernel)
    obtain ⟨ht, hm⟩ := Bool.and_eq_true_iff.1 h
    obtain ⟨m, hr⟩ := Choice.exists_of_isOne hm
    have hf := (State.findResolved_eq_one_iff hs.identified.sound).1 hr
    refine ⟨s, _, m.target, hs, pick_eq_ambiguous_iff.2 ⟨rfl, of_decide_eq_true ht⟩, fun q => ?_⟩
    exact decide_of_declarations (fromDeclarations_of_favours hs.identified.sound hf)
  · obtain ⟨p, hp, -⟩ := exists_plan
      (x := stores.resolve 50 (storeDrafts [memoryClaim, storeClaim]) 0) (fun _ => true)
      (by decide +kernel)
    exact ⟨p, hp⟩

end Resolver

end Wiring
