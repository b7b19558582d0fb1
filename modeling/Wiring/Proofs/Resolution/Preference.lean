import Wiring.Proofs.Resolution.Index
/-!
# The only alternative to defaults

If, apart from defaults and proxies, a single declaration satisfies a claim, then it should be the
one that does. Among all declarations `pick` takes it. But finished components are looked at first
and on their own: if several defaults are finished before it, they may seem equally good.

`Resolver.unique_alternative_wins` says what a claim leads to then. A default never wins. The
declaration does, except in the case that `State.Contested` describes, in which the claim is
reported as ambiguous (`Resolver.unique_alternative_contested`).
-/

namespace Wiring

/-! ## Choices with one candidate that is no default -/

theorem filter_eq_singleton {α : Type} {l : List α} {p : α → Bool} {a : α} (hl : l.Nodup)
    (h : ∀ x, x ∈ l ∧ p x = true ↔ x = a) : l.filter p = [a] := by
  refine List.perm_singleton.1 ((List.perm_ext_iff_of_nodup (hl.filter p) (by simp)).2 fun x => ?_)
  rw [List.mem_filter, List.mem_singleton]
  exact h x

theorem of_filter_eq_singleton {α : Type} {l : List α} {p : α → Bool} {a x : α}
    (h : l.filter p = [a]) : x ∈ l ∧ p x = true ↔ x = a := by
  rw [← List.mem_filter, h, List.mem_singleton]

section Pick

variable {α : Type} {c : Claim} {source : α → Source} {l : List α} {a : α}

/-- The only candidate that is no default is taken. -/
theorem pick_eq_one (h : (l.filter fun a => !(source a).isDefault) = [a]) :
    pick c source l = .one a :=
  pick_eq_one_iff.2 (.nonDefault h)

/-- Several defaults, not exactly one of which is of exactly the claimed type, are equally good. -/
theorem pick_eq_ambiguous (hd : ∀ a ∈ l, (source a).isDefault = true) (hl : 2 ≤ l.length)
    (he : (l.filter fun a => (source a).isExact c).length ≠ 1) :
    pick c source l = .ambiguous l := by
  have hn : (l.filter fun a => !(source a).isDefault) = [] :=
    List.filter_eq_nil_iff.2 fun a ha => by simp [hd a ha]
  refine pick_eq_ambiguous_iff.2 ⟨rfl, hl, ?_, he⟩
  simp [hn]

end Pick

/-! ## The look-ups -/

namespace State

variable {u : Universe} {s : State} {c : Claim} {d : Source} {i : Nat} {fit : Fit} {m : Match}

/-- Of all declarations that satisfy the claim, `d` alone is neither a default nor a proxy. -/
structure Prefers (s : State) (c : Claim) (d : Source) : Prop where
  /-- It is a source. -/
  declared : d ∈ s.catalog.sources
  /-- It is no proxy. -/
  notProxy : d.isProxy = false
  /-- It is no default. -/
  notDefault : d.isDefault = false
  /-- It satisfies the claim. -/
  fits : d.Fits c
  /-- There is no other. -/
  unique : ∀ x ∈ s.catalog.sources, x.isProxy = false → x.isDefault = false → x.Fits c → x = d

instance (s : State) (c : Claim) (d : Source) : Decidable (s.Prefers c d) :=
  decidable_of_iff (d ∈ s.catalog.sources ∧ d.isProxy = false ∧ d.isDefault = false ∧ d.Fits c ∧
      ∀ x ∈ s.catalog.sources, x.isProxy = false → x.isDefault = false → x.Fits c → x = d)
    ⟨fun ⟨h₁, h₂, h₃, h₄, h₅⟩ => ⟨h₁, h₂, h₃, h₄, h₅⟩,
      fun ⟨h₁, h₂, h₃, h₄, h₅⟩ => ⟨h₁, h₂, h₃, h₄, h₅⟩⟩

theorem Prefers.congr {t : State} (h : s.Prefers c d)
    (e : t.catalog.sources = s.catalog.sources) : t.Prefers c d where
  declared := e ▸ h.declared
  notProxy := h.notProxy
  notDefault := h.notDefault
  fits := h.fits
  unique := e ▸ h.unique

/-- Several finished components satisfy the claim, and not exactly one of them is of exactly the
claimed type. -/
def Contested (s : State) (c : Claim) : Prop :=
  2 ≤ (s.resolvedMatches c).length ∧
    ((s.resolvedMatches c).filter (·.source.isExact c)).length ≠ 1

instance (s : State) (c : Claim) : Decidable (s.Contested c) :=
  inferInstanceAs (Decidable (_ ∧ _))

theorem nodup_sources {c : Catalog} (h : c.Sound u) : c.sources.Nodup := by
  have hd := h.distinct
  rw [Catalog.declarations, List.map_append, List.map_map] at hd
  exact (List.nodup_append.1 hd).1.of_map

theorem nodup_declaredMatches (h : s.catalog.Sound u) : (s.declaredMatches c).Nodup := by
  unfold declaredMatches
  rw [h.sourcesProviding]
  exact ((nodup_sources h).filter _).filter _

theorem nodup_resolvedMatches (h : s.Indexed) : (s.resolvedMatches c).Nodup :=
  (pairwise_resolvedMatches h c).imp fun {a b} hab => by
    rintro rfl
    exact Nat.lt_irrefl _ hab

/-- Among all declarations, the only alternative to defaults is found. -/
theorem Prefers.findDeclaration (h : s.Prefers c d) (hi : s.Identified u) :
    s.findDeclaration c = .one d := by
  refine pick_eq_one (filter_eq_singleton (nodup_declaredMatches hi.sound) fun x => ?_)
  rw [mem_declaredMatches hi.sound]
  constructor
  · rintro ⟨⟨hx, hp, hf⟩, hd⟩
    exact h.unique x hx hp (by simpa using hd) hf
  · rintro rfl
    exact ⟨⟨h.declared, h.notProxy, h.fits⟩, by simp [h.notDefault]⟩

/-- A finished component that satisfies the claim is a default, or that of the alternative. -/
theorem Prefers.source_eq (h : s.Prefers c d) (hx : s.Indexed) (hi : s.Identified u)
    (hm : m ∈ s.resolvedMatches c) (hd : m.source.isDefault = false) : m.source = d := by
  obtain ⟨-, hs, hp, hf⟩ := (mem_resolvedMatches hx hi).1 hm
  exact h.unique _ hs hp hd (Option.isSome_iff_exists.2 ⟨_, hf⟩)

/-- Among the finished components, the only alternative to defaults is found if it is there. -/
theorem Prefers.findResolved_of_position? (h : s.Prefers c d) (hx : s.Indexed)
    (hi : s.Identified u) (hp : s.position? d.id = some i) (hf : d.fit? c = some fit) :
    s.findResolved c = .one ⟨i, d, fit⟩ := by
  have hpick : pick c Match.source (s.resolvedMatches c) = .one ⟨i, d, fit⟩ := by
    refine pick_eq_one (filter_eq_singleton (nodup_resolvedMatches hx) fun m => ?_)
    constructor
    · rintro ⟨hm, hd⟩
      have e := h.source_eq hx hi hm (by simpa using hd)
      obtain ⟨⟨es, hn⟩, -, -, hmf⟩ := (mem_resolvedMatches hx hi).1 hm
      have hpos : s.position? d.id = some m.position := hi.position?_iff.2 ⟨_, hn, by rw [e]⟩
      rw [hp, Option.some.injEq] at hpos
      rw [e, hf, Option.some.injEq] at hmf
      rw [hpos, hmf, ← e]
    · rintro rfl
      obtain ⟨n, hn, e⟩ := exists_of_position? hp
      have hs : n.source = d := hi.source_eq (List.mem_of_getElem? hn)
        (Catalog.declares_of_mem hi.sound h.declared) e
      refine ⟨(mem_resolvedMatches hx hi).2 ⟨⟨n.edges, ?_⟩, h.declared, h.notProxy, hf⟩, ?_⟩
      · rw [hn, ← hs]
      · simp [h.notDefault]
  rw [findResolved, hpick]
  simp [h.notDefault]

/-- If the only alternative is still to be built, then all that is finished for the claim are
defaults. -/
theorem Prefers.isDefault_of_mem (h : s.Prefers c d) (hx : s.Indexed) (hi : s.Identified u)
    (hp : s.position? d.id = none) (hm : m ∈ s.resolvedMatches c) :
    m.source.isDefault = true := by
  refine eq_true_of_ne_false fun hd => ?_
  obtain ⟨⟨es, hn⟩, -⟩ := (mem_resolvedMatches hx hi).1 hm
  refine position?_eq_none.1 hp _ (List.mem_of_getElem? hn) ?_
  rw [h.source_eq hx hi hm hd]

theorem Prefers.isSome_awaited (h : s.Prefers c d) (hi : s.Identified u)
    (hp : s.position? d.id = none) : (s.awaited c).isSome = true := by
  have hm := (mem_declaredMatches hi.sound).2 ⟨h.declared, h.notProxy, h.fits⟩
  exact List.find?_isSome.2 ⟨d, hm, by simp [h.notDefault, isResolved, hp]⟩

/-- Defaults give way to the alternative that is still to be built, unless they are contested. -/
theorem Prefers.findResolved_eq_absent (h : s.Prefers c d) (hx : s.Indexed) (hi : s.Identified u)
    (hp : s.position? d.id = none) (hc : ¬ s.Contested c) : s.findResolved c = .absent := by
  unfold findResolved
  split
  · next m hm =>
    rw [h.isDefault_of_mem hx hi hp (mem_of_pick_eq_one hm), h.isSome_awaited hi hp]
    rfl
  · next choice hone =>
    cases hk : pick c Match.source (s.resolvedMatches c) with
    | absent => rfl
    | one m => exact absurd hk (hone m)
    | ambiguous all =>
      have ht := (pick_eq_ambiguous_iff.1 hk).2
      exact absurd ⟨ht.several, ht.exact⟩ hc

/-- Defaults that are contested do not give way. -/
theorem Prefers.findResolved_of_contested (h : s.Prefers c d) (hx : s.Indexed)
    (hi : s.Identified u) (hp : s.position? d.id = none) (hc : s.Contested c) :
    s.findResolved c = .ambiguous (s.resolvedMatches c) := by
  unfold findResolved
  rw [pick_eq_ambiguous (fun m hm => h.isDefault_of_mem hx hi hp hm) hc.1 hc.2]

end State

/-! ## What the claim leads to -/

namespace Resolver

variable {r : Resolver} {s : State} {q : Source} {c : Claim} {n round : Nat} {x : Decision}
  {e : Interrupt}

/-- What declarations give is what the claim leads to. -/
theorem decide_of_declarations (h : fromDeclarations s q c = .ok (some x)) :
    r.decide n round s q c = .ok x := by
  simp [decide, h, bind, Except.bind, pure, Except.pure]

theorem decide_of_declarations_error (h : fromDeclarations s q c = .error e) :
    r.decide n round s q c = .error e := by
  simp [decide, h, bind, Except.bind]

/-- A source that is the only declaration for a claim is built, if it is not finished. -/
theorem decide_of_declaration {d : Source} (hr : s.resolvedMatches c = [])
    (hd : s.declaredMatches c = [d]) (hp : s.position? d.id = none) :
    r.decide n round s q c = .ok (.build d s.catalog) := by
  have hfound : fromDeclarations s q c = .ok (some (.build d s.catalog)) := by
    simp only [fromDeclarations, State.findResolved, State.findDeclaration, hr, hd, pick]
    simp [Choice.settle, checked, bind, Except.bind, hp]
    rfl
  exact decide_of_declarations hfound

theorem fromDeclarations_eq_none (hr : s.resolvedMatches c = []) (hd : s.declaredMatches c = []) :
    fromDeclarations s q c = .ok none := by
  simp only [fromDeclarations, State.findResolved, State.findDeclaration, hr, hd]
  rfl

/-- If declarations give nothing, then what templates give is what the claim leads to. -/
theorem decide_of_templates (hn : fromDeclarations s q c = .ok none)
    (h : r.fromTemplates n s c = .ok (some x)) : r.decide n round s q c = .ok x := by
  simp [decide, hn, h, bind, Except.bind, pure, Except.pure]

/-- A claim to which nothing helps is unresolved. -/
theorem decide_of_nothing (hd : fromDeclarations s q c = .ok none)
    (ht : r.fromTemplates n s c = .ok none) (hn : r.fromNothing n s c = .ok none)
    (he : r.fromExtensions n round s q c = .ok none) :
    r.decide n round s q c = .error (.failure (r.unresolved s q c)) := by
  simp [decide, hd, ht, hn, he, bind, Except.bind, throw, throwThe, MonadExceptOf.throw]

/-- A claim is bound to the component of the only alternative to defaults, if that is finished. -/
theorem decide_of_position? {d : Source} {i : Nat} {fit : Fit} (hd : s.Prefers c d)
    (hx : s.Indexed) (hi : s.Identified r.types) (hp : s.position? d.id = some i)
    (hf : d.fit? c = some fit) (stack : List Frame) :
    r.decide n round { s with stack } q c = .ok (.bind (.single c (fit.target i))) := by
  -- Look-ups do not depend on the stack.
  have hstack : fromDeclarations { s with stack } q c = fromDeclarations s q c := rfl
  refine decide_of_declarations (hstack.trans ?_)
  rw [fromDeclarations, hd.findResolved_of_position? hx hi hp hf]
  rfl

/-- **A claim for which several defaults are finished, and contested, is ambiguous**, although there
is an alternative to them that is still to be built. -/
theorem decide_of_contested {d : Source} (hd : s.Prefers c d) (hx : s.Indexed)
    (hi : s.Identified r.types) (hp : s.position? d.id = none) (hc : s.Contested c)
    (stack : List Frame) : r.decide n round { s with stack } q c =
      .error (.failure (c.ambiguity q ((s.resolvedMatches c).map (·.source.render)))) := by
  have hstack : fromDeclarations { s with stack } q c = fromDeclarations s q c := rfl
  refine decide_of_declarations_error (hstack.trans ?_)
  rw [fromDeclarations, hd.findResolved_of_contested hx hi hp hc]
  rfl

/-- **The only alternative to defaults wins**: a claim that it satisfies is bound to its component,
or that component is built first. The exception are claims for which several defaults are finished
before it, and contested: they are reported as ambiguous. In no case does a default win. -/
theorem unique_alternative_wins (r : Resolver) (drafts : List Draft) (round : Nat)
    (goal : Option Claim) (s : State) (hs : Reachable r drafts round goal s) (c : Claim)
    (d : Source) (hd : s.Prefers c d) (fuel : Nat) (q : Source) (stack : List Frame) :
    (∀ i, s.position? d.id = some i → ∃ fit, d.fit? c = some fit ∧
      r.decide fuel round { s with stack } q c = .ok (.bind (.single c (fit.target i)))) ∧
    (s.position? d.id = none → ¬ s.Contested c →
      r.decide fuel round { s with stack } q c = .ok (.build d s.catalog)) ∧
    (s.position? d.id = none → s.Contested c →
      r.decide fuel round { s with stack } q c =
        .error (.failure (c.ambiguity q ((s.resolvedMatches c).map (·.source.render))))) := by
  have hx := hs.indexed
  have hi := hs.identified
  have hstack : fromDeclarations { s with stack } q c = fromDeclarations s q c := rfl
  refine ⟨fun i hp => ?_, fun hp hc => ?_, fun hp hc => decide_of_contested hd hx hi hp hc stack⟩
  · obtain ⟨fit, hf⟩ := Option.isSome_iff_exists.1 hd.fits
    exact ⟨fit, hf, decide_of_position? hd hx hi hp hf stack⟩
  · refine decide_of_declarations (hstack.trans ?_)
    rw [fromDeclarations, hd.findResolved_eq_absent hx hi hp hc, hd.findDeclaration hi]
    simp [Choice.settle, checked, bind, Except.bind, hp, pure, Except.pure]

/-! ## Three caches -/

/-- A cache is an interface. -/
def caches : Resolver where
  types.types := .ofList [("Cache", { kind := .interface })]

/-- The claim of a cache. -/
def cacheClaim : Claim where
  type := .named "Cache" []

/-- Two caches are roots and defaults, a third one is neither, and an application needs a cache. -/
def cacheDrafts : List Draft :=
  [{ name := "memory", type := .named "Cache" [], isDefault := true, isRoot := true },
   { name := "disk", type := .named "Cache" [], isDefault := true, isRoot := true },
   { name := "redis", type := .named "Cache" [] },
   { name := "app", type := .named "App" [], isRoot := true, claims := [cacheClaim] }]

/-- While one default is finished, the third cache is built for the claim. -/
theorem unique_alternative_wins_caches : ∃ s d, Reachable caches cacheDrafts 0 none s ∧
    s.Prefers cacheClaim d ∧ (s.resolvedMatches cacheClaim).any (·.source.isDefault) = true ∧
      ∀ q, caches.decide 50 0 s q cacheClaim = .ok (.build d s.catalog) := by
  obtain ⟨s, hs, h⟩ := exists_reachable caches 50 cacheDrafts 0 2
    (fun s => s.catalog.sources[2]?.any fun d => Decidable.decide (s.Prefers cacheClaim d ∧
        s.position? d.id = none ∧ ¬ s.Contested cacheClaim) &&
      (s.resolvedMatches cacheClaim).any (·.source.isDefault))
    (by decide +kernel)
  obtain ⟨d, -, h⟩ := (Option.any_eq_true _ _).1 h
  obtain ⟨h, hm⟩ := Bool.and_eq_true_iff.1 h
  obtain ⟨hd, hp, hc⟩ := of_decide_eq_true h
  refine ⟨s, d, hs, hd, hm, fun q => ?_⟩
  exact (unique_alternative_wins caches cacheDrafts 0 none s hs cacheClaim d hd 50 q
    s.stack).2.1 hp hc

/-- As soon as both defaults are finished, the claim is ambiguous. -/
theorem unique_alternative_contested : ∃ s d, Reachable caches cacheDrafts 0 none s ∧
    s.Prefers cacheClaim d ∧ ∀ q, caches.decide 50 0 s q cacheClaim =
      .error (.failure (cacheClaim.ambiguity q ((s.resolvedMatches cacheClaim).map
        (·.source.render)))) := by
  obtain ⟨s, hs, h⟩ := exists_reachable caches 50 cacheDrafts 0 5
    (fun s => s.catalog.sources[2]?.any fun d => Decidable.decide (s.Prefers cacheClaim d ∧
      s.position? d.id = none ∧ s.Contested cacheClaim))
    (by decide +kernel)
  obtain ⟨d, -, h⟩ := (Option.any_eq_true _ _).1 h
  obtain ⟨hd, hp, hc⟩ := of_decide_eq_true h
  exact ⟨s, d, hs, hd, fun q => decide_of_contested hd hs.indexed hs.identified hp hc s.stack⟩

end Resolver

end Wiring
