import Wiring.Proofs.Resolution.Confinement
import Wiring.Proofs.Resolution.Supplements
import Wiring.Proofs.Universe.Vocabulary
/-!
# What a resolution speaks of

Variables belong to templates. The claims of a valid draft have no variables but those of its type,
and a template is used only after all variables of its type are replaced by parts of a claimed type.
So if no constructor claims a type with a variable, then none of the types that are claimed has one:
whatever is declared on the fly for such a claim is a source and not another template, and all that
is in progress or finished are sources.

`State.Within` says this of a state, with a restriction on the names of types beside the one on
variables: types are built from the names in `N`. `State.Within.move` is the step for moves and
`State.Within.supplement` that for what extensions add, which may have any names.

So without extensions no template is added (`Resolver.Moves.templates_eq`), and what is claimed
follows from what specialized templates of the start claim (`Resolver.Moves.graded_claims`).
-/

namespace Wiring

open Resolver

/-- The type is built from type names in `N`, without variables. -/
abbrev TypeExpr.Within (N : String → Prop) (t : TypeExpr) : Prop := t.Over N fun _ => False

/-- The claims of constructors are on types built from the names in `N`. -/
def Universe.ConstructsWithin (N : String → Prop) (u : Universe) : Prop :=
  ∀ t a, u.autoConstructor? t = some a → ∀ c ∈ a.claims, c.type.Within N

theorem Universe.Ground.constructsWithin {u : Universe} (h : u.Ground) :
    u.ConstructsWithin fun _ => True :=
  fun t a ha c hc => TypeExpr.over_iff_hasVars.2 (h t a ha c hc)

/-- The claims of a template are on types built from the names in `N` and its own variables. -/
def Declaration.Within (N : String → Prop) (d : Declaration) : Prop :=
  ∀ c ∈ d.claims, c.type.Over N (· ∈ d.type.vars)

/-- A valid draft has no variables but its own. -/
theorem Draft.within_of_validate {d : Draft} (hv : d.validate = .ok ()) (k : Nat) :
    (d.declare k).Within fun _ => True := fun c hc =>
  (TypeExpr.over_vars c.type.over_true).mono (fun _ => id)
    (Draft.vars_of_validate hv hc)

/-- Nothing that is declared has variables but those of a template's type. -/
structure Catalog.Bound (c : Catalog) : Prop where
  /-- The claims of a template have its variables only. -/
  templates : ∀ t ∈ c.templates, t.Within fun _ => True
  /-- The claims of a source have none. -/
  sources : ∀ d ∈ c.sources, ∀ x ∈ d.claims, x.type.hasVars = false

/-- A draft that is no template becomes a source. -/
theorem Catalog.eq_addSource {u : Universe} {c c' : Catalog} {d : Source} {draft : Draft} {n : Nat}
    (hr : c.registerSource? u n draft = some (d, c')) (ht : draft.isTemplate = false) :
    c' = c.addSource d := by
  obtain ⟨x, -, h⟩ := Option.bind_eq_some_iff.1 hr
  obtain ⟨rfl, rfl⟩ := Prod.mk.inj (Option.some.inj h)
  rw [Catalog.declare, Draft.isTemplate_declare, ht]
  rfl

/-- A draft that is a template becomes one. -/
theorem Catalog.eq_addTemplate {u : Universe} {c c' : Catalog} {d : Source} {draft : Draft}
    {n : Nat} (hr : c.registerSource? u n draft = some (d, c')) (ht : draft.isTemplate = true) :
    c' = c.addTemplate (c.declare draft) := by
  obtain ⟨x, -, h⟩ := Option.bind_eq_some_iff.1 hr
  obtain ⟨-, rfl⟩ := Prod.mk.inj (Option.some.inj h)
  rw [Catalog.declare, Draft.isTemplate_declare, ht]
  rfl

namespace State

variable {N : String → Prop} {r : Resolver} {s t : State} {d : Source} {c : Claim} {draft : Draft}
  {catalog : Catalog} {stack below : List Frame} {frame : Frame} {n : Nat}

/-- What is claimed is built from the names in `N`, and what is worked on is a source. -/
structure Within (N : String → Prop) (s : State) : Prop where
  /-- The claims of a template, apart from its own variables. -/
  templates : ∀ t ∈ s.catalog.templates, t.Within N
  /-- The claims of a declaration that is not finished. -/
  sources : ∀ d ∈ s.catalog.sources, s.isResolved d.id = true ∨ ∀ c ∈ d.claims, c.type.Within N
  /-- The claims that are pending, and those who wait for them. -/
  pending : ∀ f, .component f ∈ s.stack →
    f.source ∈ s.catalog.sources ∧ ∀ c ∈ f.pending, c.type.Within N
  /-- What is finished. -/
  finished : ∀ n ∈ s.resolved, n.source ∈ s.catalog.sources

theorem within_start {c₀ : Catalog} (ht : ∀ t ∈ c₀.templates, t.Within N)
    (hs : ∀ d ∈ c₀.sources, ∀ c ∈ d.claims, c.type.Within N) : (start c₀).Within N where
  templates := ht
  sources d hd := .inr (hs d hd)
  pending f hf := by simp [start] at hf
  finished := by simp [start]

theorem Within.withStack (h : s.Within N)
    (hs : ∀ f, .component f ∈ stack → .component f ∈ s.stack ∨
      f.source ∈ s.catalog.sources ∧ ∀ c ∈ f.pending, c.type.Within N) :
    { s with stack }.Within N where
  templates := h.templates
  sources := h.sources
  pending f hf := (hs f hf).elim (h.pending f) id
  finished := h.finished

theorem Within.tail (h : s.Within N) (hs : s.stack = frame :: below) :
    { s with stack := below }.Within N :=
  h.withStack fun _ hf => .inl (hs ▸ List.mem_cons_of_mem _ hf)

/-- The first pending claim of a frame is answered. -/
theorem Within.answer {w : ComponentFrame} (h : s.Within N) (hw : .component w ∈ s.stack)
    (hb : ∀ f ∈ below, f ∈ s.stack) (e : Edge) :
    { s with stack := .component (w.answer e) :: below }.Within N := by
  refine h.withStack fun f hf => ?_
  rcases List.mem_cons.1 hf with hf | hf
  · cases hf
    obtain ⟨hd, hp⟩ := h.pending w hw
    exact .inr ⟨hd, fun c hc => hp c (List.mem_of_mem_tail hc)⟩
  · exact .inl (hb _ hf)

theorem Within.push (h : s.Within N) (hd : d ∈ s.catalog.sources)
    (hc : ∀ c ∈ d.claims, c.type.Within N) : (s.push d).Within N := by
  refine h.withStack fun f hf => (mem_push hf).imp_right fun ⟨x, hx, e⟩ => ?_
  cases e
  rcases hx with rfl | hx
  · exact ⟨hd, hc⟩
  · -- Interceptors are started only if they are not finished.
    obtain ⟨hx, -, hr, -⟩ := mem_wrapping hx
    exact ⟨hx, (h.sources x hx).resolve_left (by simp [hr])⟩

/-- A source that is not finished is started. -/
theorem Within.pushSource (h : s.Within N) (hd : d ∈ s.catalog.sources)
    (hr : s.isResolved d.id = false) : (s.push d).Within N :=
  h.push hd ((h.sources d hd).resolve_left (by simp [hr]))

/-- One more source is declared. -/
theorem Within.addSource (h : s.Within N) (hc : ∀ c ∈ d.claims, c.type.Within N) :
    { s with catalog := s.catalog.addSource d }.Within N where
  templates := h.templates
  sources x hx := by
    rcases List.mem_append.1 hx with hx | hx
    · exact h.sources x hx
    · exact .inr (List.mem_singleton.1 hx ▸ hc)
  pending f hf := (h.pending f hf).imp_left (List.mem_append_left _)
  finished n hn := List.mem_append_left _ (h.finished n hn)

/-- One more template is declared. -/
theorem Within.declareTemplate {x : Declaration} (h : s.Within N) (hx : x.Within N) :
    { s with catalog := s.catalog.addTemplate x }.Within N where
  templates y hy := by
    rcases List.mem_append.1 hy with hy | hy
    · exact h.templates y hy
    · exact List.mem_singleton.1 hy ▸ hx
  sources := h.sources
  pending := h.pending
  finished := h.finished

/-- A component is finished. -/
theorem Within.commit (h : s.Within N) (hd : d ∈ s.catalog.sources) (es : List Edge) :
    (s.commit d es).Within N where
  templates := h.templates
  sources x hx := (h.sources x hx).imp_left (grows_commit s d es).isResolved
  pending := h.pending
  finished n hn := by
    rcases List.mem_append.1 hn with hn | hn
    · exact h.finished n hn
    · exact List.mem_singleton.1 hn ▸ hd

/-- A proxy is finished at once, so what it claims does not matter. -/
theorem Within.forwarded {proxy : Source} {claimed : TypeExpr} (h : s.Within N)
    (hv : claimed.hasVars = false)
    (hr : s.catalog.registerSource? r.types n (r.proxyDraft d claimed) = some (proxy, catalog)) :
    (s.forwarded catalog proxy d claimed).Within N := by
  obtain ⟨-, e, ha⟩ := Catalog.added_of_registerSource? hr
  obtain rfl := Catalog.eq_addSource hr (by simp [Draft.isTemplate, proxyDraft, hv])
  refine ⟨h.templates, fun x hx => ?_, fun f hf => ?_, fun n hn => ?_⟩
  · rcases mem_or_isResolved_of_forwarded ha e hx with hx | hx
    · exact (h.sources x hx).imp_left (grows_forwarded ha).isResolved
    · exact .inl hx
  · exact (h.pending f hf).imp_left (List.mem_append_left _)
  · rcases List.mem_append.1 hn with hn | hn
    · exact List.mem_append_left _ (h.finished n hn)
    · rw [List.mem_singleton.1 hn]
      exact List.mem_concat_self

theorem Within.forkDepth (h : s.Within N) (depth : Nat) : { s with forkDepth := depth }.Within N :=
  ⟨h.templates, h.sources, h.pending, h.finished⟩

/-- What is declared on the fly for a claim is no template, and claims nothing else. -/
theorem Within.supplies (h : s.Within N) (hN : r.types.ConstructsWithin N) (hc : c.type.Within N)
    (hd : Supplies r s c draft) :
    draft.isTemplate = false ∧ ∀ id, ∀ x ∈ (draft.declare id).claims, x.type.Within N := by
  cases hd with
  | @specialized t σ k ht ha hu =>
    obtain ⟨-, hσ⟩ := Universe.over_of_unify? hu hc
    have htype : (t.type.substitute σ).hasVars = false :=
      ((TypeExpr.over_vars t.type.over_true).substitute fun x hx => by
        obtain ⟨v, hv, ho⟩ := hσ x hx
        exact ⟨v, hv, ho.mono (fun _ _ => trivial) fun _ => id⟩).hasVars
    refine ⟨by simp [Draft.isTemplate, Declaration.instantiate, htype], fun id x hx => ?_⟩
    rw [Draft.declare_of_typeParams rfl] at hx
    obtain ⟨y, hy, rfl⟩ := List.mem_map.1 hx
    exact (h.templates t ht y hy).substitute hσ
  | @wrapper inner ho =>
    refine ⟨by simp [Draft.isTemplate, optionalDraft, hc.hasVars], fun id x hx => ?_⟩
    rw [Draft.declare_of_typeParams rfl] at hx
    rw [List.mem_singleton.1 hx]
    exact Universe.over_of_optionalInner? ho hc
  | @final a ho ha =>
    refine ⟨by simp [Draft.isTemplate, finalDraft, hc.hasVars], fun id x hx => ?_⟩
    rw [Draft.declare_of_typeParams rfl] at hx
    exact hN _ a ho x hx

/-- **A move keeps what is claimed within the names**, and what is worked on a source. -/
theorem Within.move (h : s.Within N) (hN : r.types.ConstructsWithin N) (hx : r.extensions = [])
    (hi : s.Identified r.types) (hm : r.Move s t) : t.Within N := by
  cases hm with
  | skip hs hd => exact h.tail hs
  | @expand d below hs hd =>
    cases hi.top hs with
    | root hd' hb => exact (h.tail hs).pushSource hd' hd
  | @forward f w below c cs n proxy catalog hs hw hf hk ht hp hr =>
    exact h.forwarded ((h.pending w (by simp [hs])).2 c (by simp [hw])).hasVars hr
  | bypass hs hw hf hk ht hp => exact h.answer (by simp [hs]) (fun f hf => by simp [hs, hf]) _
  | @commit f below hs hb hf => exact (h.tail hs).commit (h.pending f (by simp [hs])).1 f.edges
  | answer hs hb hf he => exact h.answer (by simp [hs]) (fun f hf => by simp [hs, hf]) _
  | @await f below c cs d hs hb hf hd =>
    obtain ⟨hd', -, -⟩ := mem_sources_of_mem_declaredMatches hd.declared
    exact h.pushSource hd' hd.unresolved
  | @supply f below c cs n draft d catalog hs hb hf hn hd hr hk =>
    have hc := (h.pending f (by simp [hs])).2 c (by simp [hf])
    obtain ⟨ht, hcl⟩ := h.supplies hN hc hd
    obtain ⟨-, e, -⟩ := Catalog.added_of_registerSource? hr
    obtain rfl := Catalog.eq_addSource hr ht
    have hd : ∀ x ∈ d.claims, x.type.Within N := by
      rw [e]
      exact hcl _
    exact (h.addSource hd).push List.mem_concat_self hd
  | extend hr he => exact absurd hx he
  | nest depth => exact h.forkDepth depth

/-- A move declares no template. -/
theorem Within.templates_eq (h : s.Within N) (hN : r.types.ConstructsWithin N)
    (hx : r.extensions = []) (hm : r.Move s t) : t.catalog.templates = s.catalog.templates :=
  hm.templates_eq (P := fun c => c.type.Within N) hx (fun f hf => (h.pending f hf).2)
    (fun _ hc => hc.hasVars) fun _ hc _ hd => (h.supplies hN hc hd).1

/-- **What an extension adds** has no variables but its own. -/
theorem Within.supplement (h : s.Within fun _ => True) (hm : r.Supplement s t) :
    t.Within fun _ => True := by
  cases hm with
  | @accept n f below c cs name draft d catalog hs hf hn hv hc hr he =>
    have hw := Draft.within_of_validate hv s.catalog.nextId
    cases (Catalog.added_of_register? hr).2 with
    | template ht => exact h.declareTemplate hw
    | @source x ht hl e =>
      refine h.addSource fun c hc => TypeExpr.over_iff_hasVars.2 ?_
      rw [Catalog.declare, Draft.isTemplate_declare] at ht
      rw [e] at hc
      exact Draft.hasVars_of_validate hv ht hc

end State

/-! ## What all runs speak of -/

namespace Resolver

variable {r : Resolver} {drafts : List Draft} {n round : Nat} {goal : Option Claim}
  {c : Catalog} {s t : State}

/-- What is valid is bound. -/
theorem bound_of_declareAll (h : r.declareAll n ∅ drafts = .ok c) : c.Bound := by
  have hv := validate_of_declareAll h
  have hc : Declared r drafts c := by simpa using declared_of_declareAll (declared_nil r) h
  refine ⟨fun t ht => ?_, fun d hd x hx => ?_⟩
  · rw [hc.templates] at ht
    obtain ⟨k, d, hd, rfl⟩ := Draft.mem_declareEach.1 (List.mem_of_mem_filter ht)
    exact Draft.within_of_validate (hv d (List.mem_of_getElem? hd)) k
  · have hm := List.mem_map_of_mem (f := Source.toDeclaration) hd
    rw [hc.sources] at hm
    obtain ⟨hm, ht⟩ := List.mem_filter.1 hm
    obtain ⟨k, y, hy, e⟩ := Draft.mem_declareEach.1 hm
    rw [e, Draft.isTemplate_declare, Bool.not_eq_true'] at ht
    rw [e] at hx
    exact Draft.hasVars_of_validate (hv y (List.mem_of_getElem? hy)) ht hx

/-- **Types with variables are never claimed**, whatever the extensions answer. -/
theorem Deeds.within (h : Deeds r s t) (hi : s.Identified r.types) (hg : r.types.Ground)
    (hw : s.Within fun _ => True) : t.Within fun _ => True := by
  refine h.invariant (fun s t hi hw hd => ?_) hi hw
  cases hd with
  | move h => exact hw.move (r := r.unextended) hg.constructsWithin rfl hi h
  | supplement h => exact hw.supplement h

theorem within_start_of_bound (h : c.Bound) : (State.start c).Within fun _ => True :=
  State.within_start h.templates fun d hd x hx => TypeExpr.over_iff_hasVars.2 (h.sources d hd x hx)

/-- In every state of every run, **what is in progress or finished is a source**, and the types that
are claimed have no variables. -/
theorem Reachable.within (h : Reachable r drafts round goal s) (hg : r.types.Ground) :
    s.Within fun _ => True := by
  obtain ⟨n, c, hc, hcourse⟩ := h.course
  have hd : Declared r drafts c := by simpa using declared_of_declareAll (declared_nil r) hc
  exact hcourse.deeds.within (State.identified_start hd.sound) hg
    (within_start_of_bound (bound_of_declareAll hc))

/-! ## What the drafts speak of -/

/-- The claims of the drafts and of constructors, as they are declared. -/
def stated (r : Resolver) (drafts : List Draft) : List Claim :=
  drafts.flatMap (fun d => (d.declare 0).claims) ++ r.types.constructorClaims

/-- The names of types that occur in the claims of the drafts and of constructors. -/
def mentioned (r : Resolver) (drafts : List Draft) : List String :=
  (drafts.flatMap (fun d => (d.declare 0).claims) ++ r.types.constructorClaims).flatMap
    fun c => c.type.typeNames

theorem mem_mentioned_of_stated {cl : Claim} {x : String} (hc : cl ∈ r.stated drafts)
    (hx : x ∈ cl.type.typeNames) : x ∈ r.mentioned drafts :=
  List.mem_flatMap.2 ⟨cl, hc, hx⟩

/-- The claims of a declared draft are stated, whatever its identity. -/
theorem mem_stated {cl : Claim} {k j : Nat} {d : Draft} (hd : drafts[j]? = some d)
    (hc : cl ∈ (d.declare k).claims) : cl ∈ r.stated drafts :=
  List.mem_append_left _ (List.mem_flatMap.2 ⟨d, List.mem_of_getElem? hd, hc⟩)

theorem mem_stated_of_constructor {cl : Claim} {t : TypeExpr} {a : AutoConstructor}
    (ha : r.types.autoConstructor? t = some a) (hc : cl ∈ a.claims) : cl ∈ r.stated drafts :=
  List.mem_append_right _ (Universe.mem_constructorClaims.2 ⟨t, a, ha, hc⟩)

/-- What templates claim is stated. -/
theorem Declared.mem_stated_of_template {cl : Claim} {t : Declaration} (h : Declared r drafts c)
    (ht : t ∈ c.templates) (hc : cl ∈ t.claims) : cl ∈ r.stated drafts := by
  rw [h.templates] at ht
  obtain ⟨k, d, hd, rfl⟩ := Draft.mem_declareEach.1 (List.mem_of_mem_filter ht)
  exact mem_stated hd hc

/-- What sources claim at the start is stated. -/
theorem Declared.mem_stated_of_source {cl : Claim} {x : Source} (h : Declared r drafts c)
    (hx : x ∈ c.sources) (hc : cl ∈ x.claims) : cl ∈ r.stated drafts := by
  obtain ⟨k, d, hd, e⟩ := h.exists_draft hx
  rw [e] at hc
  exact mem_stated hd hc

theorem constructsWithin_mentioned (hg : r.types.Ground) (drafts : List Draft) :
    r.types.ConstructsWithin (· ∈ r.mentioned drafts) := fun t a ha _ hc =>
  (hg.constructsWithin t a ha _ hc).of_typeNames fun _ hx =>
    mem_mentioned_of_stated (mem_stated_of_constructor ha hc) hx

/-- What the drafts claim is mentioned. -/
theorem within_start_of_declareAll (h : r.declareAll n ∅ drafts = .ok c) :
    (State.start c).Within (· ∈ r.mentioned drafts) := by
  have hb := bound_of_declareAll h
  have hc : Declared r drafts c := by simpa using declared_of_declareAll (declared_nil r) h
  refine State.within_start (fun t ht cl hcl => ?_) fun d hd cl hcl => ?_
  · exact (hb.templates t ht cl hcl).of_typeNames fun x hx =>
      mem_mentioned_of_stated (hc.mem_stated_of_template ht hcl) hx
  · exact (TypeExpr.over_iff_hasVars.2 (hb.sources d hd cl hcl)).of_typeNames fun x hx =>
      mem_mentioned_of_stated (hc.mem_stated_of_source hd hcl) hx

/-! ## What is claimed throughout -/

variable {N : String → Prop} {P : Claim → Prop} {c₀ : Catalog}

/-- **What moves keep within the names stays within them.** -/
theorem Moves.within (hm : Moves r (.start c₀) s) (hc : Declared r drafts c₀)
    (hN : r.types.ConstructsWithin N) (hx : r.extensions = []) (hw : (State.start c₀).Within N) :
    s.Within N := by
  induction hm with
  | refl => exact hw
  | tail hm ht ih => exact ih.move hN hx (Moves.identified hm hc) ht

/-- No template is added. -/
theorem Moves.templates_eq (hm : Moves r (.start c₀) s) (hc : Declared r drafts c₀)
    (hN : r.types.ConstructsWithin N) (hx : r.extensions = []) (hw : (State.start c₀).Within N) :
    s.catalog.templates = c₀.templates := by
  induction hm with
  | refl => rfl
  | tail hm ht ih => exact ((Moves.within hm hc hN hx hw).templates_eq hN hx ht).trans ih

/-- **Claims are graded by how many sources there are**, if what is declared on the fly for claims of
a grade makes claims of the next one. -/
theorem Moves.graded_claims {P : Nat → Claim → Prop} (hm : Moves r (.start c₀) s)
    (hc : Declared r drafts c₀) (hN : r.types.ConstructsWithin N) (hx : r.extensions = [])
    (hw : (State.start c₀).Within N) (hmono : ∀ n m c, n ≤ m → P n c → P m c)
    (hs : ∀ n c, P n c → ∀ draft, Supplies r (.start c₀) c draft → ∀ id,
      ∀ x ∈ (draft.declare id).claims, P (n + 1) x)
    (h : (State.start c₀).Claims (P c₀.sources.length)) : s.Claims (P s.catalog.sources.length) := by
  induction hm with
  | refl => exact h
  | @tail s t hm ht ih =>
    have hlen : s.catalog.sources.length ≤ t.catalog.sources.length :=
      ht.grows.catalog.sources.length_le
    refine (ih.mono fun c => hmono _ _ c hlen).move (fun f hf c hp draft hd ha => ?_) hx
      (Moves.identified hm hc) ht
    have hwithin := Moves.within hm hc hN hx hw
    have hplain := (hwithin.supplies hN ((hwithin.pending f hf).2 c hp) hd).1
    rw [ha.length_sources hplain]
    have e := Moves.templates_eq hm hc hN hx hw
    exact hs _ c (ih.pending f hf c hp) draft (hd.congr e.symm)

/-- **No claim of another kind is ever made**, if what is declared on the fly by the templates of
the start does not make any. -/
theorem Moves.claims (hm : Moves r (.start c₀) s) (hc : Declared r drafts c₀)
    (hN : r.types.ConstructsWithin N) (hx : r.extensions = []) (hw : (State.start c₀).Within N)
    (hs : ∀ c, P c → ∀ draft, Supplies r (.start c₀) c draft → ∀ id,
      ∀ x ∈ (draft.declare id).claims, P x)
    (h : (State.start c₀).Claims P) : s.Claims P :=
  hm.graded_claims (P := fun _ => P) hc hN hx hw (fun _ _ _ _ => id) (fun _ => hs) h

end Resolver

end Wiring
