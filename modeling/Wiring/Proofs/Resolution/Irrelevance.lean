import Wiring.Proofs.Resolution.Padding
/-!
# Irrelevant declarations do not disturb a plan

A declaration is irrelevant if it is no root, no template and no interceptor, and none of the names
of types that it provides occurs in a claim of another declaration or of a constructor
(`Resolver.Irrelevant`). Then it provides nothing that is ever claimed: whatever is declared on the
fly claims parts of what was claimed before, and what templates and constructors claim.

So irrelevant declarations that follow the others are idle throughout, and a resolution ends as it
would without them (`Resolver.irrelevant_declarations_do_not_disturb`). They only take up
identities: what is declared after them has identities that are shifted by their number.

A constructor may claim a variable, and so mention no name at all. A declaration that has this
variable among its supertypes satisfies the claim (`Resolver.variable_claim_is_disturbed`), so that
such constructors are left out here.
-/

namespace Wiring

variable {f : Nat → Nat} {N N' V : String → Prop}

namespace Resolver

variable {r : Resolver} {n round : Nat} {drafts extras : List Draft} {c c' : Catalog} {d : Draft}
  {s t : State}

/-- The draft is valid and stands for neither a root nor a template nor an interceptor, and none of
the names of types that it provides, which can be listed within the budget, is mentioned. -/
structure Irrelevant (r : Resolver) (n : Nat) (drafts : List Draft) (d : Draft) : Prop where
  /-- It is valid. -/
  valid : d.validate = .ok ()
  /-- It is no root. -/
  isRoot : d.isRoot = false
  /-- It is no template. -/
  isTemplate : d.isTemplate = false
  /-- Its type intercepts nothing. -/
  intercepted : r.types.intercepted? d.type = none
  /-- It provides nothing that is mentioned. -/
  provides : ∃ s, Source.ofDeclaration? r.types n (d.declare 0) = some s ∧
    ∀ x ∈ s.providedNames, x ∉ r.mentioned drafts

/-! ## Declaring irrelevant drafts -/

theorem declareAll_append : r.declareAll n c (drafts ++ extras) =
    (r.declareAll n c drafts).bind fun c => r.declareAll n c extras := by
  induction drafts generalizing c with
  | nil => rfl
  | cons d drafts ih =>
    rw [List.cons_append, declareAll, declareAll]
    cases checked d.validate with
    | error i => rfl
    | ok _ =>
      cases budgeted (c.register? r.types n d) with
      | error i => rfl
      | ok x => exact ih

/-- An irrelevant draft becomes a source. -/
theorem Irrelevant.register? (h : r.Irrelevant n drafts d) (c : Catalog) :
    ∃ s, Source.ofDeclaration? r.types n (d.declare c.nextId) = some s ∧
      c.register? r.types n d = some (d.declare c.nextId, c.addSource s) := by
  obtain ⟨s, hs, -⟩ := h.provides
  have hid := Source.ofDeclaration?_declare (f := fun _ => c.nextId) r.types n d 0
  rw [hs] at hid
  refine ⟨_, hid, ?_⟩
  rw [Catalog.register?, Catalog.declare, Draft.isTemplate_declare, h.isTemplate, hid]
  rfl

/-- Irrelevant drafts are declared as sources, with the next identities. -/
theorem exists_declareAll (he : ∀ e ∈ extras, r.Irrelevant n drafts e) (c : Catalog) :
    ∃ c' l, r.declareAll n c extras = .ok c' ∧ c'.sources = c.sources ++ l ∧
      c'.templates = c.templates ∧ c'.nextId = c.nextId + extras.length ∧
      ∀ s ∈ l, c.nextId ≤ s.id ∧ s.id < c'.nextId ∧
        ∃ e ∈ extras, Source.ofDeclaration? r.types n (e.declare s.id) = some s := by
  induction extras generalizing c with
  | nil => exact ⟨c, [], rfl, by simp, rfl, rfl, by simp⟩
  | cons e extras ih =>
    have hirr := he e List.mem_cons_self
    obtain ⟨s, hs, hr⟩ := hirr.register? c
    obtain ⟨c', l, hc', hsources, htemplates, hnext, hl⟩ :=
      ih (fun e' he' => he e' (List.mem_cons_of_mem _ he')) (c.addSource s)
    have hid : s.id = c.nextId := congrArg Declaration.id (Source.toDeclaration_of hs)
    have hnext' : c'.nextId = c.nextId + 1 + extras.length := hnext
    refine ⟨c', s :: l, ?_, by simpa [Catalog.addSource] using hsources, htemplates, ?_, ?_⟩
    · rw [declareAll, hirr.valid, hr]
      exact hc'
    · rw [hnext', List.length_cons]
      omega
    · intro x hx
      rcases List.mem_cons.1 hx with rfl | hx
      · exact ⟨hid.ge, by omega, e, List.mem_cons_self, hid ▸ hs⟩
      · obtain ⟨hle, hlt, e', he', hx⟩ := hl x hx
        have hle' : c.nextId + 1 ≤ x.id := hle
        exact ⟨by omega, hlt, e', List.mem_cons_of_mem _ he', hx⟩

/-! ## The shift -/

/-- The identity, shifted if it does not come before the first of those that are added. -/
def shift (first count id : Nat) : Nat := if id < first then id else id + count

theorem shift_injective (first count : Nat) : (shift first count).Injective := fun i j h => by
  unfold shift at h
  split at h <;> split at h <;> omega

/-- The source of an irrelevant draft is idle. -/
theorem Irrelevant.idle {e : Draft} {x : Source} (h : r.Irrelevant n drafts e)
    (hx : Source.ofDeclaration? r.types n (e.declare x.id) = some x) (hf : ∀ id, f id ≠ x.id) :
    x.Idle f (· ∈ r.mentioned drafts) := by
  obtain ⟨hd, -, -, -, hi⟩ := Source.ofDeclaration?_eq_some hx
  have hp : e.typeParams = [] := by
    simpa using (Bool.or_eq_false_iff.1 h.isTemplate).1
  refine ⟨hf, ?_, ?_, ?_⟩
  · exact (congrArg (·.isRoot) hd).trans h.isRoot
  · rw [hi, Draft.declare_of_typeParams hp]
    exact h.intercepted
  · obtain ⟨s, hs, hnames⟩ := h.provides
    have hid := Source.ofDeclaration?_declare (f := fun _ => x.id) r.types n e 0
    rw [hs] at hid
    have he : s.renumber (fun _ => x.id) = x := Option.some.inj (hid.symm.trans hx)
    rw [← congrArg Source.providedNames he]
    exact hnames

/-- **Catalogs with irrelevant declarations after the others** hold these as before, and idle
ones. -/
theorem exists_padded (hc : r.declareAll n ∅ drafts = .ok c)
    (he : ∀ e ∈ extras, r.Irrelevant n drafts e) : ∃ c', r.declareAll n c extras = .ok c' ∧
      c.Padded (shift drafts.length extras.length) (· ∈ r.mentioned drafts) c' := by
  have hd : Declared r drafts c := by simpa using declared_of_declareAll (declared_nil r) hc
  obtain ⟨c', l, hc', hsources, htemplates, hnext, hl⟩ := exists_declareAll he c
  rw [hd.nextId] at hnext hl
  refine ⟨c', hc', ?_, htemplates, fun k => ?_⟩
  · rw [hsources, ← List.append_nil c.sources, List.append_assoc, List.nil_append]
    refine (Source.padded_of_fixed fun x hx => ?_).append (Source.padded_of_idle fun x hx => ?_)
    · have hlt := hd.sound.fresh x.toDeclaration (Catalog.declares_of_mem hd.sound hx).2
      exact if_pos (hd.nextId ▸ hlt)
    · obtain ⟨hle, hlt, e, hmem, hx⟩ := hl x hx
      refine (he e hmem).idle hx fun id hid => ?_
      unfold shift at hid
      split at hid <;> omega
  · rw [hd.nextId, hnext, shift, if_neg (by omega)]
    omega

end Resolver

/-! ## Plans -/

/-- The component, whose proxies wait for the new identities. -/
def Component.renumber (f : Nat → Nat) (c : Component) : Component :=
  { c with dependencies := c.dependencies.map (Edge.renumber f) }

/-- The plan, whose proxies wait for the new identities. -/
def Plan.renumber (f : Nat → Nat) (p : Plan) : Plan :=
  { p with components := p.components.map (Component.renumber f) }

/-- The outcome under the new identities. -/
def Resolution.renumber (f : Nat → Nat) : Resolution → Resolution
  | .resolved p => .resolved (p.renumber f)
  | .restart q => .restart q

namespace State

variable {s t : State} {i : Nat} {n : Node}

theorem Padded.bindProxy (h : s.Padded f N t) (hf : f.Injective) (e : Edge) :
    t.bindProxy (e.renumber f) = (s.bindProxy e).renumber f := by
  cases e with
  | proxyParameter c d target => simp [State.bindProxy, Edge.renumber, h.position? hf]
  | _ => rfl

theorem Padded.interceptorsOf (h : s.Padded f N t) (i : Nat) (n : Node) :
    t.interceptorsOf i (n.renumber f) = s.interceptorsOf i n := by
  unfold State.interceptorsOf
  have hp : (n.renumber f).source.isProxy = n.source.isProxy := rfl
  rw [hp, h.resolved, List.length_map]
  split
  · rfl
  · congr 1
    funext j
    rw [List.getElem?_map, Option.any_map]
    rfl

theorem Padded.componentAt (h : s.Padded f N t) (hf : f.Injective) (i : Nat) (n : Node) :
    t.componentAt i (n.renumber f) = (s.componentAt i n).renumber f := by
  have hedges : (n.renumber f).edges.map t.bindProxy =
      (n.edges.map s.bindProxy).map (Edge.renumber f) := by
    simp only [Node.renumber, List.map_map]
    exact List.map_congr_left fun e _ => h.bindProxy hf e
  rw [State.componentAt, State.componentAt, h.interceptorsOf, hedges]
  rfl

/-- **The plan is the same**, under the new identities. -/
theorem Padded.toPlan (h : s.Padded f N t) (hf : f.Injective) (round : Nat) :
    t.toPlan round = (s.toPlan round).renumber f := by
  have hc : (t.toPlan round).components = ((s.toPlan round).renumber f).components := by
    refine List.ext_getElem? fun i => ?_
    rw [Plan.renumber, List.getElem?_map, getElem?_toPlan, getElem?_toPlan, h.resolved,
      List.getElem?_map, Option.map_map, Option.map_map]
    exact congrArg (Option.map · _) (funext fun n => h.componentAt hf i n)
  exact congrArg (Plan.mk · (round + 1)) hc

end State

/-! ## Resolutions with irrelevant declarations -/

namespace Resolver

variable {r : Resolver}

/-- **Irrelevant declarations do not disturb a plan.** If no constructor claims a type with a
variable, as in every table that is read, then a resolution without extensions ends with irrelevant
drafts after the others as it ends without them: with the same plan, or the same error but for
hints. Only the identities that come after those of the drafts are shifted, by the number of the
irrelevant ones. -/
theorem irrelevant_declarations_do_not_disturb (r : Resolver) (n round : Nat)
    (drafts extras : List Draft) (hx : r.extensions = []) (hg : r.types.Ground)
    (he : ∀ e ∈ extras, r.Irrelevant n drafts e) :
    (r.resolve n (drafts ++ extras) round).mapError Interrupt.withoutHints =
      ((r.resolve n drafts round).map
        (Resolution.renumber (shift drafts.length extras.length))).mapError
          Interrupt.withoutHints := by
  set f := shift drafts.length extras.length
  have hf : f.Injective := shift_injective _ _
  refine Eq.symm (Agrees.mapError_map (L := False) ?_ nofun)
  unfold resolve
  rw [declareAll_append]
  cases hc : r.declareAll n ∅ drafts with
  | error i => exact .error i
  | ok c =>
    obtain ⟨c', hc', hp⟩ := exists_padded hc he
    have hreg := registered_of_declareAll .empty hc
    have hroots : c'.roots.isEmpty = c.roots.isEmpty := by rw [hp.roots, List.isEmpty_map]
    simp only [Except.bind, hc', bind, hroots]
    split
    · exact .failure rfl
    · have hstart : r.Parallel f (· ∈ r.mentioned drafts) (.start c) (.start c') :=
        ⟨.start hp, within_start_of_declareAll hc, State.identified_start hreg.sound,
          registered_of_declareAll hreg hc'⟩
      have hrun := (simulates_padded round hf (constructsWithin_mentioned hg drafts) hx).run n none
        hstart
      refine hrun.bind fun a b hab => ?_
      cases hab with
      | finished hs | satisfied hs =>
        exact .ok (congrArg Resolution.resolved (hs.padded.toPlan hf round)).symm
      | restart q => exact .ok rfl

/-- A clock is declared by its constructor, which needs a bus; and a clock is a bus. -/
def belfry : Resolver where
  types.types := .ofList
    [("Bus", { kind := .interface }),
      ("Clock", { supertypes := [.named "Bus" []],
                  constructor := some [{ type := .named "Bus" [] }] })]

/-- An application needs the clock. -/
def belfryDrafts : List Draft :=
  [{ name := "app", type := .named "App" [], isRoot := true,
     claims := [{ type := .named "Clock" [] }] }]

/-- A lamp needs the clock, but nothing needs a lamp. -/
def lamp : Draft :=
  { name := "lamp", type := .named "Lamp" [], claims := [{ type := .named "Clock" [] }] }

/-- The declarations for which the proxies of a plan wait. -/
def awaitedIds (p : Plan) : List Nat :=
  (p.components.flatMap (·.dependencies)).filterMap fun
    | .proxyParameter _ d _ => some d
    | _ => none

/-- The clock is declared last, and a proxy waits for it. -/
theorem irrelevant_declarations_do_not_disturb_belfry : ∃ p,
    belfry.Irrelevant 50 belfryDrafts lamp ∧
    belfry.resolve 50 belfryDrafts 0 = .ok (.resolved p) ∧
    belfry.resolve 50 (belfryDrafts ++ [lamp]) 0 = .ok (.resolved (p.renumber (shift 1 1))) ∧
    awaitedIds p = [1] ∧ awaitedIds (p.renumber (shift 1 1)) = [2] := by
  have hg : belfry.types.Ground := fun t a ha c hc =>
    (by decide +kernel : ∀ c ∈ belfry.types.constructorClaims, c.type.hasVars = false) c
      (Universe.mem_constructorClaims.2 ⟨t, a, ha, hc⟩)
  have hlamp : belfry.Irrelevant 50 belfryDrafts lamp := by
    refine ⟨rfl, rfl, rfl, by decide +kernel, ?_⟩
    obtain ⟨s, hs, hn⟩ := (Option.any_eq_true _ _).1 (show
      (Source.ofDeclaration? belfry.types 50 (lamp.declare 0)).any (fun s =>
        s.providedNames.all (· ∉ belfry.mentioned belfryDrafts)) = true by decide +kernel)
    exact ⟨s, hs, by simpa using hn⟩
  obtain ⟨p, hp, hids⟩ := exists_plan (x := belfry.resolve 50 belfryDrafts 0)
    (fun p => awaitedIds p == [1] && awaitedIds (p.renumber (shift 1 1)) == [2])
    (by decide +kernel)
  have h := irrelevant_declarations_do_not_disturb belfry 50 0 belfryDrafts [lamp] rfl hg
    (by simpa using hlamp)
  obtain ⟨hbefore, hafter⟩ := Bool.and_eq_true_iff.1 hids
  refine ⟨p, hlamp, hp, ?_, by simpa using hbefore, by simpa using hafter⟩
  rw [hp] at h
  cases hx : belfry.resolve 50 (belfryDrafts ++ [lamp]) 0 with
  | error i =>
    rw [hx] at h
    cases h
  | ok x =>
    rw [hx] at h
    exact congrArg Except.ok (Except.ok.inj h)

/-- A clock is declared by its constructor, which needs a `T`; a bell is a `T`, and `T` is a
variable. -/
def carillon : Resolver where
  types.types := .ofList
    [("Bell", { supertypes := [.var "T"] }),
      ("Clock", { constructor := some [{ type := .var "T" }] })]

/-- A bell needs nothing. -/
def bell : Draft := { name := "bell", type := .named "Bell" [] }

/-- If a constructor claims a variable, then a declaration may disturb a resolution although no type
that it provides is mentioned: what the clock needs is not to be had, unless there is a bell. -/
theorem variable_claim_is_disturbed : carillon.extensions = [] ∧
    carillon.Irrelevant 50 belfryDrafts bell ∧
    (∃ e, carillon.resolve 50 belfryDrafts 0 = .error (.failure e)) ∧
    ∃ p, carillon.resolve 50 (belfryDrafts ++ [bell]) 0 = .ok (.resolved p) := by
  refine ⟨rfl, ⟨rfl, rfl, rfl, by decide +kernel, ?_⟩, ?_, ?_⟩
  · obtain ⟨s, hs, hn⟩ := (Option.any_eq_true _ _).1 (show
      (Source.ofDeclaration? carillon.types 50 (bell.declare 0)).any (fun s =>
        s.providedNames.all (· ∉ carillon.mentioned belfryDrafts)) = true by decide +kernel)
    exact ⟨s, hs, by simpa using hn⟩
  · obtain ⟨e, he, -⟩ := exists_failure (x := carillon.resolve 50 belfryDrafts 0) (fun _ => true)
      (by decide +kernel)
    exact ⟨e, he⟩
  · obtain ⟨p, hp, -⟩ := exists_plan (x := carillon.resolve 50 (belfryDrafts ++ [bell]) 0)
      (fun _ => true) (by decide +kernel)
    exact ⟨p, hp⟩

end Resolver

end Wiring
