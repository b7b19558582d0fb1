import Wiring.Proofs.Resolution.Demand
import Wiring.Proofs.Resolution.Scans
/-!
# Nothing is synthesized twice

Wrappers for optional types, final types with a constructor and specialized templates are declared
on the fly. No one looks whether the same was declared before. But something is declared for a claim
only if no source satisfies the claim, and what is declared does; had there been a source of the
same type and tags, it would have satisfied the claim, too, and would have been found.

* `Resolver.Registers` lists what a deed may add to the catalog, and under which conditions.
* `Catalog.Economical.registers`: what is synthesized stays the only source of its type and tags.
* `Resolver.nothing_is_synthesized_twice` says what this means for a plan.

A type with a variable is the exception: what has one is declared as a template, even if it is used
as it is, and look-ups among sources do not find it. In tables that are read no such type is ever
claimed (`Resolver.Reachable.within`).
-/

namespace Wiring

/-- Whether a declaration of this origin is made for a claim. -/
def Origin.isSynthesized : Origin → Bool
  | .optional | .discoveredFinal | .templateInstance _ _ => true
  | .annotated | .factory _ | .extension _ | .promisedProxy _ => false

theorem Origin.isFound_eq_false {o : Origin} (h : o.isSynthesized = true) : o.isFound = false := by
  cases o <;> simp_all [isSynthesized, isFound]

theorem Draft.isProxy_of_isSynthesized {d : Draft} (h : d.origin.isSynthesized = true) :
    d.isProxy = false := by
  cases e : d.origin <;> simp_all [Origin.isSynthesized, isProxy]

/-! ## What is added to the catalog -/

namespace Resolver

variable {r : Resolver} {s t : State} {c : Claim} {draft : Draft} {n : Nat}

/-- What an extension may supply satisfies the claim, if it is no template. -/
theorem satisfies_of_canSatisfy? (h : r.canSatisfy? n draft c = some true)
    (ht : draft.isTemplate = false) (id : Nat) : (draft.declare id).Satisfies r.types c := by
  unfold canSatisfy? at h
  dsimp only at h
  rw [Draft.isTemplate_declare, ht, if_neg Bool.false_ne_true] at h
  obtain ⟨d, hd, h⟩ := Option.bind_eq_some_iff.1 h
  have hf : d.Fits c := by simpa using h
  have hs := (Source.listed_of hd).fits_iff.1 hf
  rwa [Source.toDeclaration_of hd] at hs

/-- What a deed does to the catalog. -/
inductive Registers (r : Resolver) (s : State) : Catalog → Prop
  /-- It leaves the catalog as it is. -/
  | kept : Registers r s s.catalog
  /-- It adds a proxy. -/
  | proxy {draft : Draft} {catalog : Catalog} (ha : s.catalog.Added r.types draft catalog)
      (hp : draft.isProxy = true) : Registers r s catalog
  /-- It adds what is declared for a claim on the fly. -/
  | supplied {c : Claim} {draft : Draft} {catalog : Catalog}
      (ha : s.catalog.Added r.types draft catalog) (hn : s.declaredMatches c = [])
      (hs : Supplies r s c draft) : Registers r s catalog
  /-- It adds what an extension supplies for a claim. -/
  | extension {c : Claim} {draft : Draft} {catalog : Catalog} {name : String}
      (ha : s.catalog.Added r.types draft catalog) (hn : s.declaredMatches c = [])
      (hs : draft.isTemplate = false → ∀ id, (draft.declare id).Satisfies r.types c)
      (ho : draft.origin = .extension name) : Registers r s catalog

/-- **What a deed adds to the catalog.** -/
theorem Deed.registers (h : r.Deed s t) : Registers r s t.catalog := by
  cases h with
  | supplement h =>
    cases h with
    | accept hs hf hn hv hc hr he =>
      exact .extension (Catalog.added_of_register? hr).2 hn (satisfies_of_canSatisfy? hc) rfl
  | move h =>
    cases h with
    | skip | expand | bypass | commit | answer | await | nest => exact .kept
    | forward hs hw hf hk ht hp hr => exact .proxy (Catalog.added_of_registerSource? hr).2.2 rfl
    | supply hs hb hf hn hd hr hk =>
      exact .supplied (Catalog.added_of_registerSource? hr).2.2 hn hd.extended
    | extend hr he => exact absurd rfl he

end Resolver

/-! ## Equal sources -/

open Resolver

/-- The declarations have the same type and the same tags. -/
def Draft.Alike (a b : Draft) : Prop := a.type = b.type ∧ a.tags = b.tags

/-- What satisfies a claim that no declaration matched is like none of them. -/
theorem State.not_alike {u : Universe} {s : State} {c : Claim} {d b : Source}
    (hs : s.catalog.Sound u) (hn : s.declaredMatches c = [])
    (hd : d.toDeclaration.Satisfies u c) (hb : b ∈ s.catalog.sources) (hp : b.isProxy = false) :
    ¬ d.toDraft.Alike b.toDraft := by
  rintro ⟨htype, htags⟩
  have hf : b.Fits c := by
    refine (hs.listed b hb).fits_iff.2 ?_
    unfold Declaration.Satisfies at hd ⊢
    rwa [← htype, ← htags]
  have hm : b ∈ s.declaredMatches c := (State.mem_declaredMatches hs).2 ⟨hb, hp, hf⟩
  rw [hn] at hm
  cases hm

namespace Catalog

variable {u : Universe} {r : Resolver} {s : State} {c c' : Catalog} {a b d : Source} {draft : Draft}

/-- Nothing is synthesized twice. -/
structure Economical (u : Universe) (c : Catalog) : Prop where
  /-- What is synthesized is like no other source, proxies apart. -/
  unique : ∀ a ∈ c.sources, ∀ b ∈ c.sources, a.origin.isSynthesized = true → b.isProxy = false →
    a.toDraft.Alike b.toDraft → a = b
  /-- An instance has the tags of its template. -/
  instances : ∀ d ∈ c.sources, ∀ k σ, d.origin = .templateInstance k σ →
    ∃ t ∈ c.templates, t.id = k ∧ d.tags = t.tags
  /-- A final type has the tags of its constructor. -/
  finals : ∀ d ∈ c.sources, d.origin = .discoveredFinal →
    ∃ a, u.autoConstructor? d.type = some a ∧ d.tags = a.tags

/-- In the beginning nothing is synthesized. -/
theorem economical_of_isFound (h : ∀ d ∈ c.sources, d.origin.isFound = true) : c.Economical u where
  unique a ha b hb hs := absurd (h a ha) (by simp [Origin.isFound_eq_false hs])
  instances d hd k σ e := by simpa [e, Origin.isFound] using h d hd
  finals d hd e := by simpa [e, Origin.isFound] using h d hd

/-- One more source is declared. -/
theorem Economical.addSource (h : c.Economical u)
    (hnew : d.isProxy = true ∨ ∀ b ∈ c.sources, b.isProxy = false → ¬ d.toDraft.Alike b.toDraft)
    (hi : ∀ k σ, d.origin = .templateInstance k σ → ∃ t ∈ c.templates, t.id = k ∧ d.tags = t.tags)
    (hf : d.origin = .discoveredFinal →
      ∃ a, u.autoConstructor? d.type = some a ∧ d.tags = a.tags) :
    (c.addSource d).Economical u where
  unique a ha b hb hs hp hab := by
    have hpa : a.isProxy = false := Draft.isProxy_of_isSynthesized hs
    rcases List.mem_append.1 ha with ha' | ha' <;> rcases List.mem_append.1 hb with hb' | hb'
    · exact h.unique a ha' b hb' hs hp hab
    · -- The new source is like one from before.
      obtain rfl := List.mem_singleton.1 hb'
      exact absurd ⟨hab.1.symm, hab.2.symm⟩ (hnew.resolve_left (by simp [hp]) a ha' hpa)
    · obtain rfl := List.mem_singleton.1 ha'
      exact absurd hab (hnew.resolve_left (by simp [hpa]) b hb' hp)
    · rw [List.mem_singleton.1 ha', List.mem_singleton.1 hb']
  instances x hx k σ e := by
    rcases List.mem_append.1 hx with hx | hx
    · exact h.instances x hx k σ e
    · rw [List.mem_singleton.1 hx] at e ⊢
      exact hi k σ e
  finals x hx e := by
    rcases List.mem_append.1 hx with hx | hx
    · exact h.finals x hx e
    · rw [List.mem_singleton.1 hx] at e ⊢
      exact hf e

/-- One more source is declared that is not synthesized. -/
theorem Economical.addFound (h : c.Economical u) (ho : d.origin.isSynthesized = false)
    (hnew : d.isProxy = true ∨
      ∀ b ∈ c.sources, b.isProxy = false → ¬ d.toDraft.Alike b.toDraft) :
    (c.addSource d).Economical u := by
  refine h.addSource hnew (fun k σ e => ?_) fun e => ?_
  · rw [e] at ho
    cases ho
  · rw [e] at ho
    cases ho

theorem Economical.addTemplate (h : c.Economical u) (t : Declaration) :
    (c.addTemplate t).Economical u where
  unique := h.unique
  instances x hx k σ e := by
    obtain ⟨t, ht, h⟩ := h.instances x hx k σ e
    exact ⟨t, List.mem_append_left _ ht, h⟩
  finals := h.finals

/-- **What a deed adds is new.** -/
theorem Economical.registers (h : s.catalog.Economical r.types) (hs : s.catalog.Sound r.types)
    (hr : Registers r s c) : c.Economical r.types := by
  cases hr with
  | kept => exact h
  | proxy ha hp =>
    cases ha with
    | template ht => exact h.addTemplate _
    | @source d ht hl e =>
      have hd : d.isProxy = true := by rw [e]; exact hp
      have ho : d.origin.isSynthesized = false := by
        by_contra ho
        rw [Draft.isProxy_of_isSynthesized (by simpa using ho)] at hd
        cases hd
      exact h.addFound ho (.inl hd)
  | @supplied claim draft catalog ha hn hd =>
    cases ha with
    | template ht => exact h.addTemplate _
    | @source d ht hl e =>
      refine h.addSource (.inr fun b hb hp => ?_) (fun k σ ho => ?_) fun ho => ?_
      · exact State.not_alike hs hn (e ▸ hd.satisfies _) hb hp
      · rw [e] at ho ⊢
        cases hd with
        | specialized ht' ha hu =>
          cases ho
          exact ⟨_, ht', rfl, rfl⟩
        | wrapper | final => cases ho
      · rw [e] at ho ⊢
        cases hd with
        | specialized | wrapper => cases ho
        | @final a hc ha =>
          rw [Catalog.declare, Draft.declare_of_typeParams rfl]
          exact ⟨a, hc, rfl⟩
  | @extension claim draft catalog name ha hn hd ho =>
    cases ha with
    | template ht => exact h.addTemplate _
    | @source d ht hl e =>
      have hd' : d.toDeclaration.Satisfies r.types claim := by
        rw [e]
        rw [Catalog.declare, Draft.isTemplate_declare] at ht
        exact hd ht _
      have ho' : d.origin = .extension name := by rw [e]; exact ho
      exact h.addFound (by rw [ho']; rfl) (.inr fun b hb hp => State.not_alike hs hn hd' hb hp)

end Catalog

/-! ## What is worked on is a source -/

/-- The declaration is a source, or its type has a variable. -/
def Catalog.Offers (c : Catalog) (d : Source) : Prop := d ∈ c.sources ∨ d.type.hasVars = true

theorem Catalog.Extends.offers {c c' : Catalog} {d : Source} (h : c.Extends c') (hd : c.Offers d) :
    c'.Offers d :=
  hd.imp_left h.sources.mem

/-- What is registered without type parameters is a template only for its type. -/
theorem Catalog.offers_of_registerSource? {u : Universe} {n : Nat} {c c' : Catalog} {d : Source}
    {draft : Draft} (hr : c.registerSource? u n draft = some (d, c')) (hp : draft.typeParams = []) :
    c'.Offers d := by
  by_cases ht : draft.isTemplate = true
  · obtain ⟨-, e, -⟩ := added_of_registerSource? hr
    refine .inr ?_
    rw [e, Catalog.declare, Draft.declare_of_typeParams hp]
    simpa [Draft.isTemplate, hp] using ht
  · rw [eq_addSource hr (by simpa using ht)]
    exact .inl List.mem_concat_self

theorem Resolver.Supplies.typeParams {r : Resolver} {s : State} {c : Claim} {draft : Draft}
    (h : Supplies r s c draft) : draft.typeParams = [] := by
  cases h <;> rfl

namespace State

variable {r : Resolver} {s t : State} {d : Source} {stack below : List Frame} {w : ComponentFrame}

/-- What is in progress or finished is a source, or its type has a variable. -/
structure Sourced (s : State) : Prop where
  /-- What is in progress. -/
  inProgress : ∀ f, .component f ∈ s.stack → s.catalog.Offers f.source
  /-- What is finished. -/
  finished : ∀ n ∈ s.resolved, s.catalog.Offers n.source

theorem sourced_start (c : Catalog) : (start c).Sourced where
  inProgress f hf := by simp [start] at hf
  finished := by simp [start]

theorem Sourced.withStack (h : s.Sourced) (hs : ∀ f, .component f ∈ stack →
    (∃ g, .component g ∈ s.stack ∧ g.source = f.source) ∨ s.catalog.Offers f.source) :
    { s with stack }.Sourced where
  inProgress f hf := by
    rcases hs f hf with ⟨g, hg, e⟩ | hf
    · exact e ▸ h.inProgress g hg
    · exact hf
  finished := h.finished

theorem Sourced.answer (h : s.Sourced) (hw : .component w ∈ s.stack)
    (hb : ∀ f ∈ below, f ∈ s.stack) (e : Edge) :
    { s with stack := .component (w.answer e) :: below }.Sourced := by
  refine h.withStack fun f hf => .inl ?_
  rcases List.mem_cons.1 hf with hf | hf
  · cases hf
    exact ⟨w, hw, rfl⟩
  · exact ⟨f, hb _ hf, rfl⟩

theorem Sourced.withCatalog {catalog : Catalog} (h : s.Sourced) (hc : s.catalog.Extends catalog) :
    { s with catalog }.Sourced where
  inProgress f hf := hc.offers (h.inProgress f hf)
  finished n hn := hc.offers (h.finished n hn)

theorem Sourced.push (h : s.Sourced) (hd : s.catalog.Offers d) : (s.push d).Sourced := by
  refine h.withStack fun f hf => ?_
  rcases mem_push hf with hf | ⟨x, hx, e⟩
  · exact .inl ⟨f, hf, rfl⟩
  · cases e
    rcases hx with rfl | hx
    · exact .inr hd
    · exact .inr (.inl (mem_wrapping hx).1)

theorem Sourced.commit {es : List Edge} (h : s.Sourced) (hd : s.catalog.Offers d) :
    (s.commit d es).Sourced where
  inProgress := h.inProgress
  finished n hn := by
    rcases List.mem_append.1 hn with hn | hn
    · exact h.finished n hn
    · exact List.mem_singleton.1 hn ▸ hd

/-- **A move works on sources**, and on what has a variable. -/
theorem Sourced.move (h : s.Sourced) (hi : s.Identified r.types) (hm : r.Move s t) :
    t.Sourced := by
  have htail {frame : Frame} {below : List Frame} (hs : s.stack = frame :: below) :
      { s with stack := below }.Sourced :=
    h.withStack fun f hf => .inl ⟨f, hs ▸ List.mem_cons_of_mem _ hf, rfl⟩
  cases hm with
  | skip hs hd => exact htail hs
  | @expand d below hs hd =>
    cases hi.top hs with
    | root hd' hb => exact (htail hs).push (.inl hd')
  | forward hs hw hf hk ht hp hr =>
    have ha := (Catalog.added_of_registerSource? hr).2.2
    have hc := h.withCatalog ha.extends
    refine ⟨hc.inProgress, fun n hn => ?_⟩
    rcases List.mem_append.1 hn with hn | hn
    · exact hc.finished n hn
    · rw [List.mem_singleton.1 hn]
      exact Catalog.offers_of_registerSource? hr rfl
  | bypass hs hw hf hk ht hp => exact h.answer (by simp [hs]) (fun f hf => by simp [hs, hf]) _
  | @commit f below hs hb hf => exact (htail hs).commit (h.inProgress f (by simp [hs]))
  | answer hs hb hf he => exact h.answer (by simp [hs]) (fun f hf => by simp [hs, hf]) _
  | await hs hb hf hd => exact h.push (.inl (mem_sources_of_mem_declaredMatches hd.declared).1)
  | supply hs hb hf hn hd hr hk =>
    have ha := (Catalog.added_of_registerSource? hr).2.2
    exact (h.withCatalog ha.extends).push (Catalog.offers_of_registerSource? hr hd.typeParams)
  | extend hr he => exact h.withCatalog (Catalog.added_of_register? hr).2.extends
  | nest depth => exact ⟨h.inProgress, h.finished⟩

end State

/-! ## Plans -/

/-- A registered source is no template. -/
theorem Catalog.Registered.isTemplate {u : Universe} {c : Catalog} {d : Source}
    (h : c.Registered u) (hd : d ∈ c.sources) : d.isTemplate = false := by
  induction h with
  | empty => cases hd
  | register _ hr ih =>
    cases (added_of_register? hr).2 with
    | template => exact ih hd
    | source ht hl e =>
      rcases List.mem_append.1 hd with hd | hd
      · exact ih hd
      · rw [List.mem_singleton.1 hd, e]
        exact ht

namespace State

variable {u : Universe} {s : State} {m n : Node} {i j k : Nat} {σ τ : Substitution}

theorem Sourced.mem_sources (h : s.Sourced) (hn : n ∈ s.resolved)
    (hv : n.source.type.hasVars = false) : n.source ∈ s.catalog.sources :=
  (h.finished n hn).resolve_right (by simp [hv])

/-- **What is synthesized and finished is like nothing else that is finished.** -/
theorem Sourced.eq_of_alike (h : s.Sourced) (he : s.catalog.Economical u) (hi : s.Identified u)
    (hm : s.resolved[i]? = some m) (hn : s.resolved[j]? = some n)
    (hs : m.source.origin.isSynthesized = true) (hp : n.source.isProxy = false)
    (hv : m.source.type.hasVars = false) (ha : m.source.toDraft.Alike n.source.toDraft) :
    i = j := by
  have hms := h.mem_sources (List.mem_of_getElem? hm) hv
  have hns := h.mem_sources (List.mem_of_getElem? hn) (ha.1 ▸ hv)
  have e : m.source = n.source := he.unique _ hms _ hns hs hp ha
  have hmi : s.position? n.source.id = some i :=
    hi.position?_iff.2 ⟨m, hm, congrArg (·.id) e⟩
  have hnj : s.position? n.source.id = some j := hi.position?_iff.2 ⟨n, hn, rfl⟩
  exact Option.some.inj (hmi.symm.trans hnj)

/-- Instances of one template have the same tags. -/
theorem Sourced.tags_eq_of_instances (h : s.Sourced) (he : s.catalog.Economical u)
    (hi : s.Identified u) (hm : m ∈ s.resolved) (hn : n ∈ s.resolved)
    (hv : m.source.type.hasVars = false) (e : m.source.type = n.source.type)
    (hσ : m.source.origin = .templateInstance k σ) (hτ : n.source.origin = .templateInstance k τ) :
    m.source.tags = n.source.tags := by
  obtain ⟨t, ht, hid, htags⟩ := he.instances _ (h.mem_sources hm hv) k σ hσ
  obtain ⟨t', ht', hid', htags'⟩ := he.instances _ (h.mem_sources hn (e ▸ hv)) k τ hτ
  have e : t = t' := List.inj_on_of_nodup_map hi.sound.distinct (List.mem_append_right _ ht)
    (List.mem_append_right _ ht') (hid.trans hid'.symm)
  rw [htags, htags', e]

end State

namespace Resolver

variable {r : Resolver} {drafts : List Draft} {round : Nat} {goal : Option Claim} {s t : State}
  {c : Catalog}

theorem Deeds.economical (h : Deeds r s t) (hi : s.Identified r.types)
    (he : s.catalog.Economical r.types) : t.catalog.Economical r.types :=
  h.invariant (I := fun s => s.catalog.Economical r.types)
    (fun _ _ hi he hd => he.registers hi.sound hd.registers) hi he

theorem Moves.sourced (h : Moves r (.start c) s) (hc : Declared r drafts c) : s.Sourced := by
  induction h with
  | refl => exact State.sourced_start c
  | tail hm h ih => exact ih.move (Moves.identified hm hc) h

theorem Declared.economical (h : Declared r drafts c)
    (ho : ∀ d ∈ drafts, d.origin.isFound = true) : c.Economical r.types := by
  refine Catalog.economical_of_isFound fun x hx => ?_
  obtain ⟨k, d, hd, e⟩ := h.exists_draft hx
  rw [e]
  exact ho d (List.mem_of_getElem? hd)

/-- What the states of a run know of what was synthesized. -/
theorem Reachable.economical (h : Reachable r drafts round goal s)
    (ho : ∀ d ∈ drafts, d.origin.isFound = true) :
    s.catalog.Economical r.types ∧ s.catalog.Registered r.types ∧ s.Sourced := by
  obtain ⟨n, c, hc, hs⟩ := h.course
  have hd : Declared r drafts c := by simpa using declared_of_declareAll (declared_nil r) hc
  refine ⟨hs.deeds.economical (State.identified_start hd.sound) (hd.economical ho), ?_, ?_⟩
  · exact (hs.moves.filed (registered_of_declareAll .empty hc)).1
  · exact hs.moves.sourced hd

/-- **Nothing is synthesized twice.** If all drafts were found, then a component of a plan that was
made for a claim is like no other component in type and tags, proxies apart. So of one template
there is at most one instance of each type, and each final type is declared at most once. This holds
for every table and all extensions, save for types with variables, which no plan has unless some
constructor claims one. -/
theorem nothing_is_synthesized_twice (r : Resolver) (fuel : Nat) (drafts : List Draft) (round : Nat)
    (p : Plan) (ho : ∀ d ∈ drafts, d.origin.isFound = true)
    (h : r.resolve fuel drafts round = .ok (.resolved p)) :
    (∀ (i j : Nat) (a b : Component), p.components[i]? = some a → p.components[j]? = some b →
      a.type = b.type → a.type.hasVars = false →
        (a.origin.isSynthesized = true → b.isProxy = false → a.tags = b.tags → i = j) ∧
        (∀ k σ τ, a.origin = .templateInstance k σ → b.origin = .templateInstance k τ → i = j) ∧
        (a.origin = .discoveredFinal → b.origin = .discoveredFinal → i = j)) ∧
    (r.types.Ground → ∀ q ∈ p.components, q.type.hasVars = false) := by
  obtain ⟨s, hs, rfl⟩ := resolve_eq_resolved_iff.1 h
  obtain ⟨he, hreg, hsrc⟩ := hs.reachable.economical ho
  have hi := hs.reachable.identified
  refine ⟨fun i j a b ha hb htype hv => ?_, fun hg q hq => ?_⟩
  · obtain ⟨m, hm, rfl⟩ := State.exists_of_toPlan ha
    obtain ⟨n, hn, rfl⟩ := State.exists_of_toPlan hb
    have hmem := List.mem_of_getElem? hm
    have hnem := List.mem_of_getElem? hn
    have htype' : m.source.type = n.source.type := htype
    have hunique (hs : m.source.origin.isSynthesized = true) (hp : n.source.isProxy = false)
        (htags : m.source.tags = n.source.tags) : i = j :=
      hsrc.eq_of_alike he hi hm hn hs hp hv ⟨htype, htags⟩
    have hboth (hma : m.source.origin.isSynthesized = true)
        (hnb : n.source.origin.isSynthesized = true) (htags : m.source.tags = n.source.tags) :
        i = j :=
      hunique hma (Draft.isProxy_of_isSynthesized hnb) htags
    refine ⟨hunique, fun k σ τ hσ hτ => hboth ?_ ?_ ?_, fun hfa hfb => hboth ?_ ?_ ?_⟩
    · exact congrArg Origin.isSynthesized hσ
    · exact congrArg Origin.isSynthesized hτ
    · exact hsrc.tags_eq_of_instances he hi hmem hnem hv htype hσ hτ
    · exact congrArg Origin.isSynthesized hfa
    · exact congrArg Origin.isSynthesized hfb
    · obtain ⟨x, hx, hxt⟩ := he.finals _ (hsrc.mem_sources hmem hv) hfa
      obtain ⟨y, hy, hyt⟩ := he.finals _ (hsrc.mem_sources hnem (htype' ▸ hv)) hfb
      rw [htype', hy] at hx
      rw [hxt, hyt, Option.some.inj hx]
  · obtain ⟨i, hq⟩ := List.mem_iff_getElem?.1 hq
    obtain ⟨n, hn, rfl⟩ := State.exists_of_toPlan hq
    have hsource := (hs.reachable.within hg).finished n (List.mem_of_getElem? hn)
    exact (Bool.or_eq_false_iff.1 (hreg.isTemplate hsource)).2

/-- There is a wrapper for optional values, and a clock needs nothing. -/
def workshop : Resolver where
  types.types := .ofList
    [("Clock", { constructor := some [] }), ("Maybe", { params := ["T"], optional := true })]

/-- An application and its report need the same repository, wrapper and clock, none of which is
declared but for a template of repositories. -/
def workshopDrafts : List Draft :=
  let claims : List Claim := [{ type := .named "Repo" [.named "User" []] },
    { type := .named "Maybe" [.named "User" []] }, { type := .named "Clock" [] }]
  [{ name := "app", type := .named "App" [], isRoot := true,
     claims := claims ++ [{ type := .named "Report" [] }] },
   { name := "report", type := .named "Report" [], claims },
   { name := "repo", type := .named "Repo" [.named "T" []], typeParams := ["T"] }]

theorem nothing_is_synthesized_twice_workshop : (∀ d ∈ workshopDrafts, d.origin.isFound = true) ∧
    ∃ p, workshop.resolve 50 workshopDrafts 0 = .ok (.resolved p) ∧
      (p.components.map fun q => q.origin.isSynthesized) = [true, true, true, false, false] ∧
      ∀ (i j : Nat) (a b : Component), p.components[i]? = some a → p.components[j]? = some b →
        a.type = b.type → a.type.hasVars = false → a.origin.isSynthesized = true →
          b.isProxy = false → a.tags = b.tags → i = j := by
  have ho : ∀ d ∈ workshopDrafts, d.origin.isFound = true := by decide +kernel
  obtain ⟨p, hp, horigins⟩ := exists_plan (x := workshop.resolve 50 workshopDrafts 0)
    (fun p => (p.components.map fun q => q.origin.isSynthesized) ==
      [true, true, true, false, false]) (by decide +kernel)
  obtain ⟨hunique, -⟩ := nothing_is_synthesized_twice workshop 50 workshopDrafts 0 p ho hp
  exact ⟨ho, p, hp, by simpa using horigins,
    fun i j a b ha hb htype hv => (hunique i j a b ha hb htype hv).1⟩

/-- A fair is declared by its constructor, which needs an `X` and a row of whole numbers and `X`,
where `X` is a variable. A box is what its second argument is, and a row of both. A stall is an `X`,
and a tent a row of whole numbers and `X`; they are declared by their constructors. -/
def fair : Resolver where
  types.types :=
    let row : TypeExpr := .named "Row" [.named "Int" [], .var "X"]
    let tags : Tags := .ofList ["open", "large"]
    .ofList
      [("Box", { params := ["A", "B"],
                 supertypes := [.named "B" [],
                   .named "Row" [.named "A" [], .named "B" []]] }),
        ("Fair", { constructor := some [{ type := .var "X", tags := .ofList ["open"] },
                     { type := row, tags := .ofList ["open"] }] }),
        ("Stall", { supertypes := [.var "X"], constructor := some [], tags }),
        ("Tent", { supertypes := [row], constructor := some [], tags })]

/-- An application needs the fair. There are a template of boxes of whole numbers, which is a
default and needs a stall, and one of all boxes, which needs a tent. -/
def fairDrafts : List Draft :=
  let tags : Tags := .ofList ["open", "large"]
  [{ name := "app", type := .named "App" [], isRoot := true,
     claims := [{ type := .named "Fair" [] }] },
   { name := "small", type := .named "Box" [.named "Int" [], .named "T" []], typeParams := ["T"],
     isDefault := true, tags := .ofList ["open"], claims := [{ type := .named "Stall" [], tags }] },
   { name := "any", type := .named "Box" [.named "S" [], .named "T" []], typeParams := ["S", "T"],
     tags := .ofList ["open"], claims := [{ type := .named "Tent" [], tags }] }]

/-- Types with a variable may be synthesized twice: the template of boxes of whole numbers is
specialized for `X`, and the other one for the row, both to a box of whole numbers and `X`. -/
theorem template_is_synthesized_twice : (∀ d ∈ fairDrafts, d.origin.isFound = true) ∧
    ∃ p, fair.resolve 50 fairDrafts 0 = .ok (.resolved p) ∧
      ∃ a b, p.components[1]? = some a ∧ p.components[3]? = some b ∧ a.type = b.type ∧
        a.tags = b.tags ∧ a.origin.isSynthesized = true ∧ b.isProxy = false := by
  obtain ⟨p, hp, h⟩ := exists_plan (x := fair.resolve 50 fairDrafts 0)
    (fun p => p.components[1]?.any fun a => p.components[3]?.any fun b =>
      a.type == b.type && a.tags == b.tags && a.origin.isSynthesized && !b.isProxy)
    (by decide +kernel)
  obtain ⟨a, ha, h⟩ := (Option.any_eq_true _ _).1 h
  obtain ⟨b, hb, h⟩ := (Option.any_eq_true _ _).1 h
  simp only [Bool.and_eq_true, beq_iff_eq, Bool.not_eq_true'] at h
  obtain ⟨⟨⟨htype, htags⟩, ho⟩, hp'⟩ := h
  exact ⟨by decide +kernel, p, hp, a, b, ha, hb, htype, htags, ho, hp'⟩

end Resolver

end Wiring
