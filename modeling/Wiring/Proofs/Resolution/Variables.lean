import Wiring.Proofs.Resolution.Groundness
import Wiring.Proofs.Resolution.Repetition
/-!
# No variable escapes

What is declared on the fly for a claim without variables has none, be it a specialized template, a
wrapper, a final type or a proxy: `State.Within` says so of what is claimed. Here the same is shown
of all that ends up in a plan: the types of components, the claims that their edges satisfy, and
what their origins record (`Origin.Ground`), which is the type a proxy stands for or the types that
replaced a template's variables.

* `State.Ground.move` and `State.Ground.supplement` are the steps for moves and for what extensions
  add, `Resolver.Reachable.ground` says it of all states of all runs.
* `Resolver.Reachable.eq_addSource_of_specializations`: specialized templates are no templates.
* `Resolver.no_variable_escapes` puts them together, for states, plans and demands for another
  round.

What the drafts themselves say of their origin is not looked at
(`Resolver.origin_of_draft_escapes`).
-/

namespace Wiring

open Resolver

/-- What the origin records has no variables. -/
def Origin.Ground : Origin → Prop
  | .promisedProxy target => target.hasVars = false
  | .templateInstance _ σ => ∀ x t, σ.get? x = some t → t.hasVars = false
  | .annotated | .factory _ | .extension _ | .optional | .discoveredFinal => True

/-- Type, claims and origin have no variables, but for origins of the given kind. -/
structure Source.Ground (P : Origin → Prop) (d : Source) : Prop where
  /-- The type has none. -/
  type : d.type.hasVars = false
  /-- The claims have none. -/
  claims : ∀ c ∈ d.claims, c.type.hasVars = false
  /-- The origin records none, or is of the given kind. -/
  origin : d.origin.Ground ∨ P d.origin

/-- What a draft becomes that is no template. -/
theorem Source.ground_of_declare {P : Origin → Prop} {d : Source} {draft : Draft} {k : Nat}
    (e : d.toDeclaration = draft.declare k) (ht : draft.isTemplate = false)
    (hc : ∀ c ∈ (draft.declare k).claims, c.type.hasVars = false)
    (ho : draft.origin.Ground ∨ P draft.origin) : d.Ground P := by
  refine ⟨?_, ?_, ?_⟩
  · rw [e]
    rw [← draft.isTemplate_declare k] at ht
    exact (Bool.or_eq_false_iff.1 ht).2
  · rw [e]
    exact hc
  · rw [e]
    exact ho

/-- The claims that the frame has satisfied or is still to satisfy, and those of its declaration. -/
def Frame.claims : Frame → List Claim
  | .root d => d.claims
  | .component f => f.source.claims ++ f.edges.map Edge.claim ++ f.pending

/-- The origin of what is declared on the fly for a claim without variables records none. -/
theorem Resolver.Supplies.ground_origin {r : Resolver} {s : State} {c : Claim} {draft : Draft}
    (h : Supplies r s c draft) (hc : c.type.hasVars = false) : draft.origin.Ground := by
  cases h with
  | specialized ht ha hu =>
    obtain ⟨hσ, -⟩ := Universe.over_of_unify? hu (TypeExpr.over_iff_hasVars.2 hc)
    exact fun x t hx => (hσ x t hx).hasVars
  | wrapper h => trivial
  | final h ha => trivial

namespace State

variable {P : Origin → Prop} {r : Resolver} {s t : State} {d : Source} {c : Claim}
  {stack below : List Frame} {frame : Frame}

/-- Nothing that is declared or satisfied has variables, but for origins of the given kind. -/
structure Ground (P : Origin → Prop) (s : State) : Prop where
  /-- The sources. -/
  sources : ∀ d ∈ s.catalog.sources, d.Ground P
  /-- The edges of what is in progress. -/
  progress : ∀ f, .component f ∈ s.stack → ∀ e ∈ f.edges, e.claim.type.hasVars = false
  /-- The edges of what is finished. -/
  finished : ∀ n ∈ s.resolved, ∀ e ∈ n.edges, e.claim.type.hasVars = false

theorem ground_start {c : Catalog} (hs : ∀ d ∈ c.sources, d.Ground P) :
    (start c).Ground P where
  sources := hs
  progress f hf := by simp [start] at hf
  finished := by simp [start]

theorem Ground.withStack (h : s.Ground P)
    (hs : ∀ f, .component f ∈ stack → .component f ∈ s.stack ∨
      ∀ e ∈ f.edges, e.claim.type.hasVars = false) : { s with stack }.Ground P where
  sources := h.sources
  progress f hf := (hs f hf).elim (h.progress f) id
  finished := h.finished

theorem Ground.tail (h : s.Ground P) (hs : s.stack = frame :: below) :
    { s with stack := below }.Ground P :=
  h.withStack fun _ hf => .inl (hs ▸ List.mem_cons_of_mem _ hf)

/-- What is started has no edges yet. -/
theorem Ground.push (h : s.Ground P) (d : Source) : (s.push d).Ground P := by
  refine h.withStack fun f hf => (mem_push hf).imp_right fun ⟨x, _, e⟩ => ?_
  cases e
  exact List.forall_mem_nil _

/-- A claim without variables is answered. -/
theorem Ground.answer {w : ComponentFrame} {e : Edge} (h : s.Ground P)
    (hw : .component w ∈ s.stack) (hb : ∀ f ∈ below, f ∈ s.stack)
    (he : e.claim.type.hasVars = false) :
    { s with stack := .component (w.answer e) :: below }.Ground P := by
  refine h.withStack fun f hf => ?_
  rcases List.mem_cons.1 hf with hf | hf
  · cases hf
    refine .inr fun x hx => ?_
    rcases List.mem_append.1 hx with hx | hx
    · exact h.progress w hw x hx
    · rwa [List.mem_singleton.1 hx]
  · exact .inl (hb _ hf)

theorem Ground.addSource (h : s.Ground P) (hd : d.Ground P) :
    { s with catalog := s.catalog.addSource d }.Ground P where
  sources x hx := by
    rcases List.mem_append.1 hx with hx | hx
    · exact h.sources x hx
    · rwa [List.mem_singleton.1 hx]
  progress := h.progress
  finished := h.finished

theorem Ground.commit {es : List Edge} (h : s.Ground P)
    (he : ∀ e ∈ es, e.claim.type.hasVars = false) : (s.commit d es).Ground P where
  sources := h.sources
  progress := h.progress
  finished n hn := by
    rcases List.mem_append.1 hn with hn | hn
    · exact h.finished n hn
    · rw [List.mem_singleton.1 hn]
      exact he

/-- The claim that a frame works on has no variables. -/
theorem Within.hasVars {N : String → Prop} {f : ComponentFrame} {cs : List Claim}
    (h : s.Within N) (hf : .component f ∈ s.stack) (hp : f.pending = c :: cs) :
    c.type.hasVars = false :=
  ((h.pending f hf).2 c (by simp [hp])).hasVars

/-- A proxy stands for a source, so its type and its only claim have no variables. -/
theorem Ground.forwarded {n : Nat} {claimed : TypeExpr} {proxy : Source} {catalog : Catalog}
    (h : s.Ground P) (hd : d.Ground P) (hv : claimed.hasVars = false)
    (hr : s.catalog.registerSource? r.types n (r.proxyDraft d claimed) = some (proxy, catalog)) :
    (s.forwarded catalog proxy d claimed).Ground P := by
  obtain ⟨-, e, -⟩ := Catalog.added_of_registerSource? hr
  have ht : (r.proxyDraft d claimed).isTemplate = false := by
    simp [Draft.isTemplate, proxyDraft, hv]
  obtain rfl := Catalog.eq_addSource hr ht
  have hproxy : proxy.Ground P := by
    refine Source.ground_of_declare e ht (fun c hc => ?_) (.inl hd.type)
    rw [Draft.declare_of_typeParams rfl] at hc
    rw [List.mem_singleton.1 hc]
    exact hd.type
  have he : ∀ e ∈ [Edge.proxyParameter d.forwardingClaim d.id none],
      e.claim.type.hasVars = false := List.forall_mem_singleton.2 hd.type
  have hc := (h.addSource hproxy).commit (d := proxy) he
  exact ⟨hc.sources, hc.progress, hc.finished⟩

/-- **A move brings no variables in.** -/
theorem Ground.move (h : s.Ground P) (hw : s.Within fun _ => True) (hg : r.types.Ground)
    (hx : r.extensions = []) (hm : r.Move s t) : t.Ground P := by
  cases hm with
  | skip hs hd => exact h.tail hs
  | expand hs hd => exact (h.tail hs).push _
  | @forward f w below c cs n proxy catalog hs hp hf hk ht hl hr =>
    have hd := h.sources f.source (hw.pending f (by simp [hs])).1
    exact h.forwarded hd (hw.hasVars (by simp [hs]) hp) hr
  | @bypass f w below c cs i hs hp hf hk ht hl =>
    refine h.answer (by simp [hs]) (fun f hf => by simp [hs, hf]) ?_
    rw [Edge.claim_single]
    exact hw.hasVars (by simp [hs]) hp
  | @commit f below hs hb hf => exact (h.tail hs).commit (h.progress f (by simp [hs]))
  | @answer f below c cs e hs hb hf he =>
    refine h.answer (by simp [hs]) (fun f hf => by simp [hs, hf]) ?_
    rw [he.claim_eq]
    exact hw.hasVars (by simp [hs]) hf
  | await hs hb hf hd => exact h.push _
  | @supply f below c cs n draft d catalog hs hb hf hn hd hr hk =>
    have hc := (hw.pending f (by simp [hs])).2 c (by simp [hf])
    obtain ⟨ht, hcl⟩ := hw.supplies hg.constructsWithin hc hd
    obtain ⟨-, e, -⟩ := Catalog.added_of_registerSource? hr
    obtain rfl := Catalog.eq_addSource hr ht
    have hdg : d.Ground P := Source.ground_of_declare e ht (fun x hx => (hcl _ x hx).hasVars)
      (.inl (hd.ground_origin hc.hasVars))
    exact (h.addSource hdg).push d
  | extend hr he => exact absurd hx he
  | nest depth => exact ⟨h.sources, h.progress, h.finished⟩

/-- **What an extension adds** has no variables but its own. -/
theorem Ground.supplement (h : s.Ground P) (hm : r.Supplement s t) : t.Ground P := by
  cases hm with
  | @accept n f below c cs name draft d catalog hs hf hn hv hc hr he =>
    cases (Catalog.added_of_register? hr).2 with
    | template ht => exact ⟨h.sources, h.progress, h.finished⟩
    | @source x ht hl e =>
      rw [Catalog.declare, Draft.isTemplate_declare] at ht
      exact h.addSource (Source.ground_of_declare e ht
        (fun c hc => Draft.hasVars_of_validate hv ht hc) (.inl trivial))

end State

namespace Resolver

variable {r : Resolver} {drafts : List Draft} {n m round : Nat} {goal : Option Claim} {s t : State}
  {c : Catalog} {cl : Claim} {q : RestartRequest}

/-- The origin is that of a draft. -/
def IsOriginIn (drafts : List Draft) (o : Origin) : Prop := ∃ d ∈ drafts, d.origin = o

/-- What is declared at the start has no variables, unless a draft records one as its origin. -/
theorem ground_of_declareAll (h : r.declareAll n ∅ drafts = .ok c) :
    ∀ d ∈ c.sources, d.Ground (IsOriginIn drafts) := by
  have hv := validate_of_declareAll h
  have hc : Declared r drafts c := by simpa using declared_of_declareAll (declared_nil r) h
  intro d hd
  have hm := List.mem_map_of_mem (f := Source.toDeclaration) hd
  rw [hc.sources] at hm
  obtain ⟨hm, ht⟩ := List.mem_filter.1 hm
  obtain ⟨k, y, hy, e⟩ := Draft.mem_declareEach.1 hm
  rw [e, Draft.isTemplate_declare, Bool.not_eq_true'] at ht
  have hy := List.mem_of_getElem? hy
  exact Source.ground_of_declare e ht (fun c hc => Draft.hasVars_of_validate (hv y hy) ht hc)
    (.inr ⟨y, hy, rfl⟩)

/-- In every state of every run, **nothing that is declared or satisfied has variables**. -/
theorem Reachable.ground (h : Reachable r drafts round goal s) (hg : r.types.Ground) :
    s.Ground (IsOriginIn drafts) := by
  obtain ⟨n, c, hc, hcourse⟩ := h.course
  have hd : Declared r drafts c := by simpa using declared_of_declareAll (declared_nil r) hc
  have hstart : (State.start c).Within (fun _ => True) ∧
      (State.start c).Ground (IsOriginIn drafts) :=
    ⟨within_start_of_bound (bound_of_declareAll hc), State.ground_start (ground_of_declareAll hc)⟩
  refine (hcourse.deeds.invariant
    (I := fun s => s.Within (fun _ => True) ∧ s.Ground (IsOriginIn drafts))
    (fun s t hi ⟨hw, hs⟩ hd => ?_) (State.identified_start hd.sound) hstart).2
  have hwt := Deeds.within (.single hd) hi hg hw
  cases hd with
  | move h => exact ⟨hwt, hs.move (r := r.unextended) hw hg rfl h⟩
  | supplement h => exact ⟨hwt, hs.supplement h⟩

/-- The claims of all frames have no variables. -/
theorem Reachable.hasVars_of_claims {f : Frame} (h : Reachable r drafts round goal s)
    (hg : r.types.Ground) (hf : f ∈ s.stack) (hc : cl ∈ f.claims) : cl.type.hasVars = false := by
  have hs := h.ground hg
  cases f with
  | root d =>
    obtain ⟨below, hr⟩ := h.identified.grounded.exists_of_mem hf
    cases hr with
    | root hd hb => exact (hs.sources d hd).claims cl hc
  | component f =>
    obtain ⟨hd, hp⟩ := (h.within hg).pending f hf
    rcases List.mem_append.1 hc with hc | hc
    · rcases List.mem_append.1 hc with hc | hc
      · exact (hs.sources _ hd).claims cl hc
      · obtain ⟨e, he, rfl⟩ := List.mem_map.1 hc
        exact hs.progress f hf e he
    · exact (hp cl hc).hasVars

/-- **A specialized template is no template**: declaring it adds a source. -/
theorem Reachable.eq_addSource_of_specializations {ds : List Draft} {d : Draft} {x : Source}
    {catalog : Catalog} (h : Reachable r drafts round goal s) (hg : r.types.Ground)
    (hc : cl.type.hasVars = false)
    (hds : cl.specializations? r.types n s.catalog.templates = some ds) (hd : d ∈ ds)
    (hx : s.catalog.registerSource? r.types m d = some (x, catalog)) :
    catalog = s.catalog.addSource x := by
  have hs := (h.within hg).supplies hg.constructsWithin (TypeExpr.over_iff_hasVars.2 hc)
    (supplies_of_mem hds hd)
  exact Catalog.eq_addSource hx hs.1

/-- What a component of the plan shows of a finished one. -/
theorem Reachable.ground_component {i : Nat} {node : Node} (h : Reachable r drafts round goal s)
    (hg : r.types.Ground) (hn : s.resolved[i]? = some node) :
    (s.componentAt i node).type.hasVars = false ∧
      (∀ e ∈ (s.componentAt i node).dependencies, e.claim.type.hasVars = false) ∧
      ((s.componentAt i node).origin.Ground ∨
        IsOriginIn drafts (s.componentAt i node).origin) := by
  have hn := List.mem_of_getElem? hn
  have hs := h.ground hg
  have hd := hs.sources _ ((h.within hg).finished node hn)
  refine ⟨hd.type, fun e he => ?_, hd.origin⟩
  obtain ⟨x, hx, rfl⟩ := List.mem_map.1 he
  rw [State.claim_bindProxy]
  exact hs.finished node hn x hx

/-- **No variable escapes.** If no constructor claims a type with a variable, then, for all drafts
and extensions: in every state of every run, the types of sources and the claims of frames have no
variables, and a template that is specialized for a claim without variables becomes a source; the
components of plans have none in their types and in the claims of their edges, nor do their origins
record any, save for those that the drafts came with; and no type with a variable is claimed in
another round. -/
theorem no_variable_escapes (r : Resolver) (drafts : List Draft) (round : Nat)
    (hg : r.types.Ground) :
    (∀ goal s, Reachable r drafts round goal s →
      (∀ d ∈ s.catalog.sources, d.type.hasVars = false) ∧
      (∀ f ∈ s.stack, ∀ c ∈ f.claims, c.type.hasVars = false) ∧
      ∀ (c : Claim) (n : Nat) (ds : List Draft) (d : Draft) (m : Nat) (x : Source)
        (catalog : Catalog), c.type.hasVars = false →
        c.specializations? r.types n s.catalog.templates = some ds → d ∈ ds →
        s.catalog.registerSource? r.types m d = some (x, catalog) →
          catalog = s.catalog.addSource x) ∧
    (∀ fuel p, r.resolve fuel drafts round = .ok (.resolved p) → ∀ q ∈ p.components,
      q.type.hasVars = false ∧ (∀ e ∈ q.dependencies, e.claim.type.hasVars = false) ∧
        (q.origin.Ground ∨ IsOriginIn drafts q.origin)) ∧
    ∀ fuel q, r.resolve fuel drafts round = .ok (.restart q) → q.claim.type.hasVars = false := by
  refine ⟨fun goal s h => ⟨fun d hd => ((h.ground hg).sources d hd).type,
    fun f hf c hc => h.hasVars_of_claims hg hf hc, ?_⟩, fun fuel p h q hq => ?_, fun fuel q h => ?_⟩
  · intro c n ds d m x catalog hc hds hd hx
    exact h.eq_addSource_of_specializations hg hc hds hd hx
  · obtain ⟨s, hs, rfl⟩ := resolve_eq_resolved_iff.1 h
    obtain ⟨i, hq⟩ := List.mem_iff_getElem?.1 hq
    obtain ⟨node, hn, rfl⟩ := State.exists_of_toPlan hq
    exact hs.reachable.ground_component hg hn
  · obtain ⟨m, goal, t, ht, hp⟩ := exists_demand_of_resolve h
    obtain ⟨-, f, below, cs, hs, hf⟩ := asked_of_step hp
    exact ht.hasVars_of_claims hg (f := .component f) (by simp [hs]) (by simp [Frame.claims, hf])

/-- A bus is an interface, and there is a wrapper for optional values. What nothing else provides,
a generator promises for the next round, and supplies there as a template. -/
def depot : Resolver where
  types.types := .ofList
    [("Bus", { kind := .interface }), ("Hub", { supertypes := [.named "Bus" []] }),
      ("Maybe", { params := ["T"], optional := true })]
  extensions :=
    [{ name := "generator"
       answer := fun c _ round => .ok <|
         if round = 0 then .newRound
         else .supply { name := "made", type := .named c.type.name [.var "X"] } }]

/-- An application needs the bus, whose hub needs the bus itself, a repository, of which there is a
template, an optional user, and a list, which is still to be made. -/
def depotDrafts : List Draft :=
  [{ name := "app", type := .named "App" [], isRoot := true,
     claims := [{ type := .named "Bus" [] }, { type := .named "Repo" [.named "User" []] },
       { type := .named "Maybe" [.named "User" []] },
       { type := .named "List" [.named "User" []] }] },
   { name := "hub", type := .named "Hub" [], claims := [{ type := .named "Port" [] }] },
   { name := "port", type := .named "Port" [], claims := [{ type := .named "Bus" [] }] },
   { name := "repo", type := .named "Repo" [.named "T" []], typeParams := ["T"] }]

theorem ground_depot : depot.types.Ground := fun t a ha c hc =>
  (by decide +kernel : ∀ c ∈ depot.types.constructorClaims, c.type.hasVars = false) c
    (Universe.mem_constructorClaims.2 ⟨t, a, ha, hc⟩)

theorem no_variable_escapes_depot : depot.types.Ground ∧
    (∃ q, depot.resolve 60 depotDrafts 0 = .ok (.restart q) ∧ q.claim.type.hasVars = false) ∧
    ∃ p, depot.resolve 60 depotDrafts 1 = .ok (.resolved p) ∧
      (p.components.map fun q => q.origin.label) = ["promised-proxy", "annotated", "annotated",
        "template-instance", "optional", "template-instance", "annotated"] ∧
      ∀ q ∈ p.components, q.type.hasVars = false ∧
        (∀ e ∈ q.dependencies, e.claim.type.hasVars = false) ∧
        (q.origin.Ground ∨ IsOriginIn depotDrafts q.origin) := by
  obtain ⟨p, hp, hlabels⟩ := exists_plan (x := depot.resolve 60 depotDrafts 1)
    (fun p => (p.components.map fun q => q.origin.label) == ["promised-proxy", "annotated",
      "annotated", "template-instance", "optional", "template-instance", "annotated"])
    (by decide +kernel)
  obtain ⟨q, hq⟩ := exists_restart (x := depot.resolve 60 depotDrafts 0) (by decide +kernel)
  obtain ⟨-, -, hrestart⟩ := no_variable_escapes depot depotDrafts 0 ground_depot
  obtain ⟨-, hplan, -⟩ := no_variable_escapes depot depotDrafts 1 ground_depot
  exact ⟨ground_depot, ⟨q, hq, hrestart 60 q hq⟩, p, hp, by simpa using hlabels, hplan 60 p hp⟩

/-- An application that is said to be a proxy of a variable. -/
def disguisedDraft : Draft :=
  { name := "app", type := .named "App" [], isRoot := true, origin := .promisedProxy (.var "T") }

/-- A plan shows the origin that a draft came with, even if it records a variable. -/
theorem origin_of_draft_escapes : depot.types.Ground ∧ disguisedDraft.validate = .ok () ∧
    ∃ p, depot.resolve 50 [disguisedDraft] 0 = .ok (.resolved p) ∧
      ∃ q ∈ p.components, ¬ q.origin.Ground := by
  obtain ⟨p, hp, h⟩ := exists_plan (x := depot.resolve 50 [disguisedDraft] 0)
    (fun p => p.components.any (·.origin == .promisedProxy (.var "T"))) (by decide +kernel)
  obtain ⟨q, hq, h⟩ := List.any_eq_true.1 h
  refine ⟨ground_depot, rfl, p, hp, q, hq, ?_⟩
  rw [beq_iff_eq.1 h]
  nofun

end Resolver

end Wiring
