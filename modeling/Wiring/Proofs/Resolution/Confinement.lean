import Wiring.Proofs.Resolution.Identity
import Wiring.Proofs.Universe.Ground
/-!
# What can be claimed

Without templates and extensions (`Resolver.Plain`), what is declared on the fly is a wrapper for an
optional type that is claimed, a final type with a constructor, or a proxy. So the claims that can
ever be made are finitely many (`Resolver.Pool`): those of the drafts and the constructors, and for
each of them those on the types inside its optional wrappers.

`State.Claims` says that nothing but claims of some kind is made in a state, and `State.Claims.move`
that moves keep it so if what is declared on the fly does. `State.Confined` says this of a pool, and
that there are no templates.
-/

namespace Wiring

open Resolver

/-! ## Nothing is a template -/

/-- Nothing is a template, and no extension is asked. Variables belong to templates, so no
constructor claims a type with a variable either; that is so in each table that is read
(`Universe.ground_of_ofValue`). -/
structure Resolver.Plain (r : Resolver) (drafts : List Draft) : Prop where
  /-- No extension is asked. -/
  extensions : r.extensions = []
  /-- There are no templates. -/
  templates : ∀ d ∈ drafts, d.isTemplate = false
  /-- No constructor claims a type with a variable. -/
  constructors : r.types.Ground

/-- A draft without type parameters is declared as it is. -/
theorem Draft.declare_of_typeParams {d : Draft} (h : d.typeParams = []) (id : Nat) :
    d.declare id = ⟨d, id⟩ := by
  have hc : d.claims.map (Claim.bind []) = d.claims :=
    (List.map_congr_left fun c _ => c.bind_nil).trans (List.map_id' _)
  rw [declare, h, TypeExpr.bind_nil, hc, ← h]

/-- The claims of a valid draft have no variables but those of its type. -/
theorem Draft.vars_of_validate {d : Draft} {k : Nat} {c : Claim} (hv : d.validate = .ok ())
    (hc : c ∈ (d.declare k).claims) : ∀ x ∈ c.type.vars, x ∈ (d.declare k).type.vars := by
  obtain ⟨c, hcl, rfl⟩ := List.mem_map.1 hc
  have hf : d.foreignVar? = none := by
    unfold validate at hv
    split at hv
    · cases hv
    · split at hv
      · cases hv
      · cases hv
      · next hf => exact hf
  have hf := List.findSome?_eq_none_iff.1 hf c hcl
  rw [Option.map_eq_none_iff, List.find?_eq_none] at hf
  intro x hx
  simpa [exposedVars, declare] using hf x hx

theorem Draft.hasVars_of_validate {d : Draft} {k : Nat} {c : Claim} (hv : d.validate = .ok ())
    (ht : d.isTemplate = false) (hc : c ∈ (d.declare k).claims) : c.type.hasVars = false := by
  have hvars : (d.declare k).type.vars = [] := by
    rw [← d.isTemplate_declare k] at ht
    exact TypeExpr.hasVars_eq_false_iff.1 (Bool.or_eq_false_iff.1 ht).2
  rw [TypeExpr.hasVars_eq_false_iff]
  refine List.eq_nil_iff_forall_not_mem.2 fun x hx => ?_
  simpa [hvars] using Draft.vars_of_validate hv hc x hx

/-! ## The claims that can be made -/

/-- The types inside optional wrappers, from the outside in. -/
def Universe.inners (u : Universe) : TypeExpr → List TypeExpr
  | .named n [inner] =>
    if (u.optionalInner? (.named n [inner])).isSome then inner :: u.inners inner else []
  | _ => []

theorem Universe.inners_eq {u : Universe} {t inner : TypeExpr}
    (h : u.optionalInner? t = some inner) :
    ∃ n, t = .named n [inner] ∧ u.inners t = inner :: u.inners inner := by
  have h' := h
  obtain ⟨info, hi, h⟩ := Option.bind_eq_some_iff.1 h
  cases t with
  | var x => cases hi
  | named n args =>
    dsimp only [TypeExpr.args] at h
    split at h
    · split at h
      · cases h
        exact ⟨n, rfl, by rw [inners, h', Option.isSome_some, if_pos rfl]⟩
      · cases h
    · cases h

/-- What is inside an optional type has no variables either. -/
theorem Universe.hasVars_of_inners {u : Universe} {t s : TypeExpr} (ht : t.hasVars = false)
    (hs : s ∈ u.inners t) : s.hasVars = false := by
  fun_induction Universe.inners u t with
  | case1 n inner ho ih =>
    have hi : inner.hasVars = false := by
      simpa [TypeExpr.hasVars, TypeExpr.varOccurrences, TypeExpr.varOccurrencesAll] using ht
    rcases List.mem_cons.1 hs with rfl | hs
    · exact hi
    · exact ih hi hs
  | case2 | case3 => cases hs

/-- The types inside an optional wrapper are closed under taking what is inside. -/
theorem Universe.mem_inners {u : Universe} {t s x : TypeExpr} (hs : s ∈ u.inners t)
    (hx : u.optionalInner? s = some x) : x ∈ u.inners t := by
  fun_induction Universe.inners u t with
  | case1 n inner ho ih =>
    rcases List.mem_cons.1 hs with rfl | hs
    · obtain ⟨m, -, e⟩ := inners_eq hx
      simp [e]
    · exact List.mem_cons_of_mem _ (ih hs)
  | case2 | case3 => cases hs

/-- The claims of all constructors of the table. -/
def Universe.constructorClaims (u : Universe) : List Claim :=
  u.names.flatMap fun n => ((u.autoConstructor? (.named n [])).map AutoConstructor.claims).getD []

theorem Universe.mem_constructorClaims {u : Universe} {c : Claim} :
    c ∈ u.constructorClaims ↔ ∃ t a, u.autoConstructor? t = some a ∧ c ∈ a.claims := by
  unfold constructorClaims
  rw [List.mem_flatMap]
  constructor
  · rintro ⟨n, -, hc⟩
    cases ha : u.autoConstructor? (.named n []) with
    | none => simp [ha] at hc
    | some a => exact ⟨_, a, ha, by simpa [ha] using hc⟩
  · rintro ⟨t, a, ha, hc⟩
    obtain ⟨n, info, rfl, hm, -⟩ := exists_of_autoConstructor? ha
    exact ⟨n, List.mem_map_of_mem hm, by simpa [ha] using hc⟩

/-- Some claims, and those that optional wrappers declared for them have. -/
def Universe.pool (u : Universe) (base : List Claim) : List Claim :=
  base.flatMap fun c =>
    c :: (u.inners c.type).map fun t => { type := t, tags := c.tags, kind := .nullable }

/-- The claims contain all that can be made from them on the fly, and none is on a type with a
variable. -/
structure Resolver.Pool (r : Resolver) (K : List Claim) : Prop where
  /-- No claim is on a type with a variable. -/
  plain : ∀ c ∈ K, c.type.hasVars = false
  /-- The claims of optional wrappers are among them. -/
  inner : ∀ c ∈ K, ∀ t, r.types.optionalInner? c.type = some t →
    { type := t, tags := c.tags, kind := .nullable } ∈ K
  /-- The claims of constructors are among them. -/
  constructors : ∀ t a, r.types.autoConstructor? t = some a → ∀ c ∈ a.claims, c ∈ K

theorem Resolver.pool_of {r : Resolver} {base : List Claim}
    (hb : ∀ c ∈ base, c.type.hasVars = false)
    (hc : ∀ t a, r.types.autoConstructor? t = some a → ∀ c ∈ a.claims, c ∈ base) :
    Pool r (r.types.pool base) where
  plain c h := by
    obtain ⟨b, hbase, h⟩ := List.mem_flatMap.1 h
    rcases List.mem_cons.1 h with rfl | h
    · exact hb c hbase
    · obtain ⟨t, ht, rfl⟩ := List.mem_map.1 h
      exact Universe.hasVars_of_inners (hb b hbase) ht
  inner c h t ht := by
    obtain ⟨b, hbase, h⟩ := List.mem_flatMap.1 h
    refine List.mem_flatMap.2 ⟨b, hbase, List.mem_cons_of_mem _ ?_⟩
    rcases List.mem_cons.1 h with rfl | h
    · obtain ⟨n, -, e⟩ := Universe.inners_eq ht
      exact List.mem_map.2 ⟨t, by simp [e], rfl⟩
    · obtain ⟨s, hs, rfl⟩ := List.mem_map.1 h
      exact List.mem_map.2 ⟨t, Universe.mem_inners hs ht, rfl⟩
  constructors t a ha c h := List.mem_flatMap.2 ⟨c, hc t a ha c h, List.mem_cons_self⟩

/-! ## Nothing else is claimed -/

section

variable {u : Universe} {c c' : Catalog} {d : Draft}

theorem Catalog.Added.exists_addSource (h : c.Added u d c') (ht : d.isTemplate = false) :
    ∃ s, c' = c.addSource s := by
  cases h with
  | template h' =>
    rw [Catalog.declare, Draft.isTemplate_declare, ht] at h'
    cases h'
  | source => exact ⟨_, rfl⟩

theorem Catalog.Added.templates_eq (h : c.Added u d c') (ht : d.isTemplate = false) :
    c'.templates = c.templates := by
  obtain ⟨s, rfl⟩ := h.exists_addSource ht
  rfl

theorem Catalog.Added.length_sources (h : c.Added u d c') (ht : d.isTemplate = false) :
    c'.sources.length = c.sources.length + 1 := by
  obtain ⟨s, rfl⟩ := h.exists_addSource ht
  exact List.length_append

end

namespace State

variable {P : Claim → Prop} {r : Resolver} {s t : State} {d : Source} {draft : Draft}
  {catalog : Catalog} {stack below : List Frame} {frame : Frame}

/-- Nothing but claims of the kind is pending. -/
def Pending (P : Claim → Prop) (s : State) : Prop :=
  ∀ f, .component f ∈ s.stack → ∀ c ∈ f.pending, P c

/-- Nothing but claims of the kind is made, by what is in progress or by what may be started. -/
structure Claims (P : Claim → Prop) (s : State) : Prop where
  /-- The claims of a declaration that is not finished. -/
  sources : ∀ d ∈ s.catalog.sources, s.isResolved d.id = true ∨ ∀ c ∈ d.claims, P c
  /-- The claims that are pending. -/
  pending : s.Pending P

theorem claims_start {c₀ : Catalog} (hs : ∀ d ∈ c₀.sources, ∀ c ∈ d.claims, P c) :
    (start c₀).Claims P where
  sources d hd := .inr (hs d hd)
  pending f hf := by simp [start] at hf

theorem Claims.withStack (h : s.Claims P)
    (hs : ∀ f, .component f ∈ stack → .component f ∈ s.stack ∨ ∀ c ∈ f.pending, P c) :
    { s with stack }.Claims P where
  sources := h.sources
  pending f hf := (hs f hf).elim (h.pending f) id

theorem Claims.tail (h : s.Claims P) (hs : s.stack = frame :: below) :
    { s with stack := below }.Claims P :=
  h.withStack fun _ hf => .inl (hs ▸ List.mem_cons_of_mem _ hf)

/-- The first pending claim of a frame is answered. -/
theorem Claims.answer {w : ComponentFrame} (h : s.Claims P) (hw : .component w ∈ s.stack)
    (hb : ∀ f ∈ below, f ∈ s.stack) (e : Edge) :
    { s with stack := .component (w.answer e) :: below }.Claims P := by
  refine h.withStack fun f hf => ?_
  rcases List.mem_cons.1 hf with hf | hf
  · cases hf
    exact .inr fun c hc => h.pending w hw c (List.mem_of_mem_tail hc)
  · exact .inl (hb _ hf)

theorem Claims.push (h : s.Claims P) (hd : ∀ c ∈ d.claims, P c) : (s.push d).Claims P := by
  refine h.withStack fun f hf => (mem_push hf).imp_right fun ⟨x, hx, e⟩ => ?_
  cases e
  rcases hx with rfl | hx
  · exact hd
  · -- Interceptors are started only if they are not finished.
    obtain ⟨hx, -, hr, -⟩ := mem_wrapping hx
    exact (h.sources x hx).resolve_left (by simp [hr])

/-- One more draft is declared. -/
theorem Claims.declare (h : s.Claims P) (ha : s.catalog.Added r.types draft catalog)
    (hc : ∀ c ∈ (s.catalog.declare draft).claims, P c) : { s with catalog }.Claims P where
  sources d hd := by
    rcases ha.mem_sources hd with hd | e
    · exact h.sources d hd
    · rw [e]
      exact .inr hc
  pending := h.pending

theorem Claims.mono {Q : Claim → Prop} (h : s.Claims P) (hPQ : ∀ c, P c → Q c) : s.Claims Q where
  sources d hd := (h.sources d hd).imp_right fun hc c hm => hPQ c (hc c hm)
  pending f hf c hc := hPQ c (h.pending f hf c hc)

/-- **A move makes no claim of another kind**, if what it declares on the fly does not. -/
theorem Claims.move (h : s.Claims P)
    (hclaims : ∀ f, .component f ∈ s.stack → ∀ c ∈ f.pending, ∀ draft, Supplies r s c draft →
      s.catalog.Added r.types draft t.catalog → ∀ id, ∀ x ∈ (draft.declare id).claims, P x)
    (hx : r.extensions = []) (hi : s.Identified r.types) (hm : r.Move s t) : t.Claims P := by
  cases hm with
  | skip hs hd => exact h.tail hs
  | @expand d below hs hd =>
    cases hi.top hs with
    | root hd' hb => exact (h.tail hs).push ((h.sources d hd').resolve_left (by simp [hd]))
  | @forward f w below c cs n proxy catalog hs hw hf hk ht hp hr =>
    obtain ⟨-, e, ha⟩ := Catalog.added_of_registerSource? hr
    refine ⟨fun d hd => ?_, h.pending⟩
    rcases mem_or_isResolved_of_forwarded ha e hd with hd | hd
    · exact (h.sources d hd).imp_left (grows_forwarded ha).isResolved
    · exact .inl hd
  | bypass hs hw hf hk ht hp => exact h.answer (by simp [hs]) (fun f hf => by simp [hs, hf]) _
  | @commit f below hs hb hf =>
    have hg := grows_commit { s with stack := below } f.source f.edges
    exact ⟨fun d hd => (h.sources d hd).imp_left hg.isResolved, (h.tail hs).pending⟩
  | answer hs hb hf he => exact h.answer (by simp [hs]) (fun f hf => by simp [hs, hf]) _
  | @await f below c cs d hs hb hf hd =>
    obtain ⟨hd', -, -⟩ := mem_sources_of_mem_declaredMatches hd.declared
    exact h.push ((h.sources d hd').resolve_left (by simp [hd.unresolved]))
  | @supply f below c cs n draft d catalog hstack hb hf hn hd hr hk =>
    obtain ⟨-, e, ha⟩ := Catalog.added_of_registerSource? hr
    have hcl := hclaims f (by simp [hstack]) c (by simp [hf]) draft hd ha
    refine (h.declare ha (hcl _)).push ?_
    rw [e]
    exact hcl _
  | extend hr he => exact absurd hx he
  | nest depth => exact ⟨h.sources, h.pending⟩

end State

/-- **A move declares no template**, if claims have no variables and none is declared on the fly. -/
theorem Resolver.Move.templates_eq {P : Claim → Prop} {r : Resolver} {s t : State}
    (hm : r.Move s t) (hx : r.extensions = []) (h : s.Pending P)
    (hP : ∀ c, P c → c.type.hasVars = false)
    (hs : ∀ c, P c → ∀ draft, Supplies r s c draft → draft.isTemplate = false) :
    t.catalog.templates = s.catalog.templates := by
  cases hm with
  | @forward f w below c cs n proxy catalog hstack hw hf hk ht hp hr =>
    obtain ⟨-, -, ha⟩ := Catalog.added_of_registerSource? hr
    have hplain : c.type.hasVars = false := hP c (h w (by simp [hstack]) c (by simp [hw]))
    exact ha.templates_eq (by simp [Draft.isTemplate, proxyDraft, hplain])
  | @supply f below c cs n draft d catalog hstack hb hf hn hd hr hk =>
    obtain ⟨-, -, ha⟩ := Catalog.added_of_registerSource? hr
    exact ha.templates_eq (hs c (h f (by simp [hstack]) c (by simp [hf])) draft hd)
  | extend hr he => exact absurd hx he
  | _ => rfl

namespace State

variable {r : Resolver} {K : List Claim} {s t : State} {c : Claim} {draft : Draft}

/-- What is claimed, or may be claimed by what is not finished, is among the claims, and there are
no templates. -/
structure Confined (K : List Claim) (s : State) : Prop where
  /-- There are no templates. -/
  templates : s.catalog.templates = []
  /-- The claims of a declaration that is not finished. -/
  sources : ∀ d ∈ s.catalog.sources, s.isResolved d.id = true ∨ ∀ c ∈ d.claims, c ∈ K
  /-- The claims that are pending. -/
  pending : ∀ f, .component f ∈ s.stack → ∀ c ∈ f.pending, c ∈ K

theorem confined_start {c₀ : Catalog} (ht : c₀.templates = [])
    (hs : ∀ d ∈ c₀.sources, ∀ c ∈ d.claims, c ∈ K) : (start c₀).Confined K where
  templates := ht
  sources d hd := .inr (hs d hd)
  pending f hf := by simp [start] at hf

/-- What is declared on the fly for one of the claims is no template and claims nothing else. -/
theorem supplies_confined (hK : Pool r K) (ht : s.catalog.templates = []) (hc : c ∈ K)
    (h : Supplies r s c draft) :
    draft.isTemplate = false ∧ ∀ id, ∀ x ∈ (draft.declare id).claims, x ∈ K := by
  have hplain := hK.plain c hc
  cases h with
  | specialized ht' => simp [ht] at ht'
  | @wrapper inner h =>
    refine ⟨by simp [Draft.isTemplate, optionalDraft, hplain], fun id x hx => ?_⟩
    rw [Draft.declare_of_typeParams rfl] at hx
    rw [List.mem_singleton.1 hx]
    exact hK.inner c hc inner h
  | @final a h ha =>
    refine ⟨by simp [Draft.isTemplate, finalDraft, hplain], fun id x hx => ?_⟩
    rw [Draft.declare_of_typeParams rfl] at hx
    exact hK.constructors _ a h x hx

/-- **A move keeps what is claimed among the claims.** -/
theorem Confined.move (h : s.Confined K) (hK : Pool r K) (hx : r.extensions = [])
    (hi : s.Identified r.types) (hm : r.Move s t) : t.Confined K := by
  have hs (c : Claim) (hc : c ∈ K) (draft : Draft) (hd : Supplies r s c draft) :=
    supplies_confined hK h.templates hc hd
  have hclaims : t.Claims (· ∈ K) :=
    Claims.move ⟨h.sources, h.pending⟩
      (fun f hf c hc draft hd _ => (hs c (h.pending f hf c hc) draft hd).2) hx hi hm
  have htemplates : t.catalog.templates = s.catalog.templates :=
    hm.templates_eq hx h.pending hK.plain fun c hc draft hd => (hs c hc draft hd).1
  exact ⟨htemplates.trans h.templates, hclaims.sources, hclaims.pending⟩

end State

end Wiring
