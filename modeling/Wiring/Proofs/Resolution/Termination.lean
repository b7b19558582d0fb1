import Wiring.Proofs.Resolution.Ends
import Wiring.Proofs.Resolution.Faults
import Wiring.Proofs.Resolution.Groundness
import Wiring.Proofs.Resolution.Recursion
import Wiring.Proofs.Resolution.Rivals
import Wiring.Proofs.Resolution.Survivor
import Wiring.Proofs.Universe.Expansion
/-!
# Without templates and extensions every round ends

Each step of the stack ends where searches do (`Resolver.halts_step`), and without templates and
extensions each of them leaves less to do (`Resolver.rank_lt_of_step`): a step consists of moves,
which lower the rank unless they leave the stack as it is, and no step does
(`Resolver.stack_ne_of_step`). So each round ends with a plan or an error
(`Resolver.resolve_terminates`).

This needs constructors that claim no variables. A component whose type has a variable is filed as
a template, also if it was made on the fly. A branch of a fork may finish such a component for the
claim and be adopted, but the claim is not satisfied by a template. It is looked up again, with one
more template to try, and so on (`Resolver.maze_never_ends`).
-/

namespace Wiring

namespace Resolver

variable {r : Resolver} {drafts : List Draft} {n round : Nat} {goal : Option Claim} {s t : State}
  {d q : Source} {c : Claim} {draft : Draft} {K : List Claim} {c₀ : Catalog}

/-! ## Rounds end -/

theorem Moves.confined (hm : Moves r (.start c₀) s) (hc : Declared r drafts c₀) (hK : Pool r K)
    (hx : r.extensions = []) (h : (State.start c₀).Confined K) : s.Confined K := by
  induction hm with
  | refl => exact h
  | tail hm ht ih => exact ih.move hK hx (Moves.identified hm hc) ht

/-- Without templates nothing is claimed but claims to which all others lead back. -/
theorem encloses_of_confined (hc : Declared r drafts c₀) (hK : Pool r K) (hx : r.extensions = [])
    (h : (State.start c₀).Confined K) : Encloses r round c₀ K where
  extensions := hx
  declared := ⟨drafts, hc⟩
  supplies _ hm _ hcK _ hd :=
    (State.supplies_confined hK (hm.confined hc hK hx h).templates hcK hd).1
  pending _ _ hw := (hw.moves.confined hc hK hx h).pending

/-- **Each run ends**, with a state or an error. -/
theorem exists_ends (hf : r.types.Finitary) (hw : Way r round (none, .start c₀) (none, s))
    (hc : Declared r drafts c₀) (hK : Pool r K) (hx : r.extensions = [])
    (h : (State.start c₀).Confined K) :
    ∃ x, Ends r round none s x ∧ ∀ q, x ≠ .ok (.restart q) :=
  exists_ends_of_acc hf hx ((encloses_of_confined hc hK hx h).acc hw)

/-- Declaring drafts ends. -/
theorem halts_declareAll (hf : r.types.Finitary) (catalog : Catalog) :
    Halts fun n => r.declareAll n catalog drafts := by
  induction drafts generalizing catalog with
  | nil => exact halts_ok _
  | cons d drafts ih =>
    refine Halts.bind ⟨0, checked_ne_outOfFuel _⟩ (fun _ => .refl _) (fun hn _ => ?_)
      fun _ _ _ => ?_
    · exact (approximates_budgeted fun _ => Catalog.register?_mono hn).bind
        fun _ => approximates_declareAll hn
    · obtain ⟨n, x, hx⟩ := hf.exists_register? catalog d
      have hregister : Halts fun n => budgeted (catalog.register? r.types n d) :=
        ⟨n, by simp [hx, budgeted]⟩
      exact hregister.bind (fun hn => approximates_budgeted fun _ => Catalog.register?_mono hn)
        (fun hn _ => approximates_declareAll hn) fun _ x _ => ih x.2

/-- There are finitely many claims to which all others lead back. -/
theorem exists_pool (hp : r.Plain drafts) (hc : Declared r drafts c₀)
    (hv : ∀ d ∈ drafts, d.validate = .ok ()) :
    ∃ K, Pool r K ∧ (State.start c₀).Confined K := by
  have hbase : ∀ c ∈ c₀.sources.flatMap (·.claims) ++ r.types.constructorClaims,
      c.type.hasVars = false := by
    intro c h
    rcases List.mem_append.1 h with h | h
    · obtain ⟨x, hx, h⟩ := List.mem_flatMap.1 h
      obtain ⟨k, d, hd, e⟩ := hc.exists_draft hx
      have hd := List.mem_of_getElem? hd
      rw [e] at h
      exact Draft.hasVars_of_validate (hv d hd) (hp.templates d hd) h
    · obtain ⟨t, a, ha, h⟩ := Universe.mem_constructorClaims.1 h
      exact hp.constructors t a ha c h
  have ht : c₀.templates = [] := hc.templates_eq_nil hp.templates
  refine ⟨r.types.pool _, pool_of hbase fun t a ha c h => ?_, State.confined_start ht ?_⟩
  · exact List.mem_append_right _ (Universe.mem_constructorClaims.2 ⟨t, a, ha, h⟩)
  · intro d hd c h
    exact List.mem_flatMap.2 ⟨c, List.mem_append_left _ (List.mem_flatMap.2 ⟨d, hd, h⟩),
      List.mem_cons_self⟩

/-- The round with a cycle has neither templates nor extensions. -/
theorem plain_ring : ring.Plain ringDrafts where
  extensions := rfl
  templates := by decide +kernel
  constructors t a ha := by
    rw [Universe.autoConstructor?_eq_none (by decide +kernel) t] at ha
    cases ha

/-- **Without templates and extensions every round ends with a plan or an error**, if every type
reaches finitely many types and no constructor claims a type with a variable. -/
theorem resolve_terminates (r : Resolver) (drafts : List Draft) (round : Nat)
    (hf : r.types.Finitary) (hp : r.Plain drafts) :
    ∃ y, Yields r drafts round y ∧
      ((∃ p, y = .ok (.resolved p)) ∨ ∃ e, y = .error (.failure e)) := by
  have herror {n : Nat} {e : Error} (h : r.resolve n drafts round = .error (.failure e)) :
      ∃ y, Yields r drafts round y ∧
        ((∃ p, y = .ok (.resolved p)) ∨ ∃ e, y = .error (.failure e)) :=
    ⟨.error (.failure e), ⟨by simp, n, h⟩, .inr ⟨e, rfl⟩⟩
  obtain ⟨n, hn⟩ : Halts fun n => r.declareAll n ∅ drafts := halts_declareAll hf ∅
  cases hd : r.declareAll n ∅ drafts with
  | error i =>
    cases i with
    | outOfFuel => exact absurd hd hn
    | failure e =>
      refine herror (n := n) (e := e) ?_
      rw [resolve, hd]
      rfl
  | ok c₀ =>
    have hc : Declared r drafts c₀ := by simpa using declared_of_declareAll (declared_nil r) hd
    cases hr : c₀.roots.isEmpty with
    | true =>
      refine herror (n := n) (e := .noRoots) ?_
      rw [resolve, hd]
      simp only [bind, Except.bind, hr]
      rfl
    | false =>
      obtain ⟨K, hK, hconf⟩ := exists_pool hp hc (validate_of_declareAll hd)
      obtain ⟨x, hx, hq⟩ := exists_ends (s := .start c₀) hf .refl hc hK hp.extensions hconf
      refine ⟨x.map (resolution round), (yields_iff_of_start hd hr).2 ⟨x, hx, rfl⟩, ?_⟩
      cases x with
      | error i =>
        cases i with
        | failure e => exact .inr ⟨e, rfl⟩
        | outOfFuel => exact absurd rfl hx.1
      | ok e =>
        cases e with
        | finished s | satisfied s => exact .inl ⟨_, rfl⟩
        | restart q => exact absurd rfl (hq q)

theorem resolve_terminates_ring : ring.types.Finitary ∧ ring.Plain ringDrafts ∧
    ∃ y, Yields ring ringDrafts 0 y ∧
      ((∃ p, y = .ok (.resolved p)) ∨ ∃ e, y = .error (.failure e)) := by
  have hf : ring.types.Finitary := Universe.finitary_of_hasVars (by decide +kernel)
  exact ⟨hf, plain_ring, resolve_terminates ring ringDrafts 0 hf plain_ring⟩

end Resolver

/-! ## A fork that is retried forever -/

/-- The state in which a branch begins with the component of a new template. -/
def State.opened (s : State) (x : Source) : State :=
  { s with
    catalog := s.catalog.addTemplate x.toDeclaration
    stack := .component (.start x) :: s.stack
    forkDepth := s.forkDepth + 1 }

namespace Resolver

variable {r : Resolver} {n m round : Nat} {goal : Option Claim} {s : State} {c : Claim}
  {d : Draft} {x : Source} {t u : TypeExpr} {f : Fork}

/-- A branch ends with the component that satisfies its claim, once the last claim of that is
bound. -/
theorem ends_of_bind {e : Edge} {g : ComponentFrame} {below : List Frame}
    (hs : s.stack = .component g :: below) (hb : ¬ Frame.ClosesCycle g.source.id below)
    (hf : g.pending = [c]) (hk : c.kind.isSingle = true)
    (hd : r.decide n round { s with stack := below } g.source c = .ok (.bind e))
    (hr : reaches goal g.source = true) : Ends r round goal s
      (.ok (.satisfied ({ s with stack := below }.commit g.source (g.edges ++ [e])))) := by
  have hcommit : r.step n round goal { s with stack := .component (g.answer e) :: below } =
      .ok (.satisfied ({ s with stack := below }.commit g.source (g.edges ++ [e]))) := by
    rw [step_eq_commit (f := g.answer e) rfl hb (congrArg List.tail hf)]
    exact congrArg Except.ok (if_pos hr)
  exact (ends_iff_of_next (step_of_bind hs hb hf hk hd)).2 (ends_of_step_satisfied hcommit)

/-- Tags that take a component with any tags. -/
def looseTags : Tags := .ofList ["*", "spare"]

/-- A pair. -/
def pairOf (a b : TypeExpr) : TypeExpr := .named "Pair" [a, b]

/-- A link of anything to itself. -/
def selfLink : TypeExpr := .named "Link" [.var "U", .var "U"]

/-- The finder needs a wrapper of a pair, of which nothing is known. -/
def finderClaim : Claim where
  type := .named "Maybe" [pairOf (.var "S") (.var "T")]
  tags := looseTags

/-- The seeker needs a link that is a spare one. -/
def seekerClaim : Claim where
  type := selfLink
  tags := .ofList ["spare"]

/-- A wrapper needs the pair that it wraps, if there is one. -/
def pairClaim (t : TypeExpr) : Claim where
  type := pairOf t t
  tags := looseTags
  kind := .nullable

/-- The wall needs mortar. -/
def mortarClaim : Claim where
  type := .named "Mortar" []

/-- A gate, a door and a wall are pairs, and a pair is a link. The constructors of the finder and
the seeker claim types with variables. -/
def maze : Resolver where
  types.types := .ofList
    [("Door", { supertypes := [pairOf (.var "U") (.var "U")] }),
      ("Finder", { constructor := some [finderClaim] }),
      ("Gate", { supertypes := [pairOf (.var "S") (.var "T")] }),
      ("Maybe", { params := ["A"], optional := true, wraps := some (.named "A" []) }),
      ("Pair", { params := ["A", "B"],
                 supertypes := [.named "A" [], .named "Link" [.named "A" [], .named "B" []]] }),
      ("Seeker", { constructor := some [seekerClaim] }),
      ("Wall", { supertypes := [pairOf selfLink selfLink] })]

/-- An application needs the finder, and the gate that this comes to needs the seeker. Nothing
hinders the door, and there is no mortar for the wall. -/
def mazeDrafts : List Draft :=
  [{ name := "app", type := .named "App" [], isRoot := true,
     claims := [{ type := .named "Finder" [] }] },
   { name := "gate", type := .named "Gate" [], claims := [{ type := .named "Seeker" [] }] },
   { name := "door", type := .named "Door" [] },
   { name := "wall", type := .named "Wall" [], claims := [mortarClaim] }]

theorem finitary_maze : maze.types.Finitary :=
  Universe.Nonexpansive.finitary ⟨0, fun _ _ => 0, by decide +kernel⟩

/-- The wrapper that the finder needs is a template. -/
def finderTemplate : Declaration :=
  (optionalDraft finderClaim (pairOf (.var "S") (.var "T"))).declare 5

/-- A wrapper that is made of a template. -/
def wrapperDraft (t : TypeExpr) (name : String) (origin : Origin) : Draft where
  name
  type := .named "Maybe" [pairOf t t]
  tags := looseTags
  claims := [pairClaim t]
  origin

/-- The draft is that of a wrapper of a pair of two `t`. -/
def IsWrapper (t : TypeExpr) (d : Draft) : Prop := ∃ name origin, d = wrapperDraft t name origin

namespace IsWrapper

theorem iff_eq : IsWrapper t d ↔ d = wrapperDraft t d.name d.origin := by
  refine ⟨?_, fun h => ⟨_, _, h⟩⟩
  rintro ⟨name, origin, rfl⟩
  rfl

theorem isTemplate (h : IsWrapper t d) (ht : t.hasVars = true) : d.isTemplate = true := by
  obtain ⟨name, origin, rfl⟩ := h
  refine Bool.or_eq_true_iff.2 (.inr (eq_true_of_ne_false fun hn => ?_))
  have hpair := TypeExpr.hasVars_named.1 hn (pairOf t t) List.mem_cons_self
  rw [TypeExpr.hasVars_named.1 hpair t List.mem_cons_self] at ht
  cases ht

theorem tags_eq (h : IsWrapper t d) : d.tags = looseTags := by
  obtain ⟨name, origin, rfl⟩ := h
  rfl

theorem claims_eq (h : IsWrapper t d) : d.claims = [pairClaim t] := by
  obtain ⟨name, origin, rfl⟩ := h
  rfl

theorem typeParams_eq (h : IsWrapper t d) : d.typeParams = [] := by
  obtain ⟨name, origin, rfl⟩ := h
  rfl

/-- The seeker does not choose among wrappers. -/
theorem narrow_eq {ds : List Draft} (h : ∀ d ∈ ds, ∃ t, IsWrapper t d) :
    seekerClaim.narrow ds = ds := by
  refine Claim.narrow_eq_self (fun d hd => ?_) fun d hd => ?_
  · obtain ⟨t, name, origin, rfl⟩ := h d hd
    exact fun e => absurd (TypeExpr.named.inj e).1 (by decide)
  · obtain ⟨t, name, origin, rfl⟩ := h d hd
    rfl

/-- A branch begins with a wrapper that is a template. -/
theorem exists_openBranch (h : IsWrapper t d) (ht : d.isTemplate = true)
    (hi : s.Identified maze.types) : ∃ n name x,
      s.catalog.registerSource? maze.types n d =
        some (x, s.catalog.addTemplate x.toDeclaration) ∧
      maze.openBranch n s d = .ok (name, s.opened x) ∧ x.toDeclaration = ⟨d, s.catalog.nextId⟩ := by
  obtain ⟨n, ⟨x, catalog⟩, hr⟩ := finitary_maze.exists_registerSource? s.catalog d
  obtain ⟨-, e, -⟩ := Catalog.added_of_registerSource? hr
  obtain rfl := Catalog.eq_addTemplate hr ht
  rw [← e] at hr
  refine ⟨n, x.render, x, hr, ?_, e.trans (Draft.declare_of_typeParams h.typeParams_eq _)⟩
  have hpush : State.push { s with catalog := s.catalog.addTemplate x.toDeclaration,
                                   forkDepth := s.forkDepth + 1 } x = s.opened x :=
    push_eq (Universe.not_intercepts (by decide +kernel)) (hi.register hr).1.sound
  rw [openBranch, hr, ← hpush]
  rfl

end IsWrapper

/-- What the variable of a wrapper is replaced by. -/
def linkContent : Substitution := NameMap.insert ∅ "U" selfLink

/-- For the seeker, the wrapper of the finder becomes one of the door. -/
theorem specialize?_finder : ∃ d, IsWrapper (.var "U") d ∧
    finderTemplate.specialize? maze.types 20 seekerClaim = some (some d) := by
  obtain ⟨o, ho, h⟩ := (Option.any_eq_true _ _).1 (show
    (finderTemplate.specialize? maze.types 20 seekerClaim).any (fun o => o.any fun d =>
      d == wrapperDraft (.var "U") d.name d.origin) = true by decide +kernel)
  obtain ⟨d, rfl, h⟩ := (Option.any_eq_true _ _).1 h
  exact ⟨d, IsWrapper.iff_eq.2 (beq_iff_eq.1 h), ho⟩

theorem unify?_wrapper : maze.types.unify? 20 (.named "Maybe" [pairOf (.var "U") (.var "U")])
    seekerClaim.type = some (some linkContent) := by decide +kernel

/-- For the seeker, a wrapper of the door becomes one of the wall. -/
theorem specialize?_wrapper {t : Declaration} (h : IsWrapper (.var "U") t.toDraft) :
    t.specialize? maze.types 20 seekerClaim = some (some (t.instantiate linkContent)) ∧
      IsWrapper selfLink (t.instantiate linkContent) := by
  obtain ⟨draft, id⟩ := t
  obtain ⟨name, origin, h⟩ := h
  obtain rfl : draft = _ := h
  have ha : seekerClaim.tags.Accepts looseTags := by decide +kernel
  exact ⟨Declaration.specialize?_of_unify? (t := ⟨wrapperDraft _ name origin, id⟩) ha
    unify?_wrapper, _, _, rfl⟩

/-- In the branch for a wrapper of the wall, the wall is begun. -/
theorem step_wall {wall : Source} (hb : Reachable maze mazeDrafts 0 goal (s.opened x))
    (hc : x.claims = [pairClaim selfLink]) (hclose : ¬ Frame.ClosesCycle x.id s.stack)
    (hw : s.declaredMatches (pairClaim selfLink) = [wall])
    (hu : s.isResolved wall.id = false) : maze.step 0 0 goal (s.opened x) =
      .ok (.next { s.opened x with stack := .component (.start wall) :: (s.opened x).stack }) := by
  have hw' : (s.opened x).declaredMatches (pairClaim selfLink) = [wall] := hw
  have hr : (s.opened x).resolvedMatches (pairClaim selfLink) = [] := by
    refine State.resolvedMatches_eq_nil_of_isResolved hb.indexed hb.identified ?_
    rw [hw', List.forall_mem_singleton]
    exact hu
  have hposition : s.position? wall.id = none :=
    Option.not_isSome_iff_eq_none.1 (Bool.eq_false_iff.1 hu)
  rw [← push_eq (Universe.not_intercepts (by decide +kernel)) hb.identified.sound]
  exact step_of_build (s := s.opened x) rfl hclose hc rfl <|
    decide_of_declaration (s := { s.opened x with stack := s.stack }) hr hw' hposition

/-- The seeker is at work, and there are wrappers of the door already, all of them templates. -/
structure GoesRound (s : State) : Prop where
  /-- The round comes to the state. -/
  reachable : Reachable maze mazeDrafts 0 none s
  /-- There are the wrapper of the finder and wrappers of the door. -/
  templates : ∃ ts, s.catalog.templates = finderTemplate :: ts ∧ ts ≠ [] ∧
    ∀ t ∈ ts, IsWrapper (.var "U") t.toDraft
  /-- The claim of the seeker is looked up. -/
  waiting : ∃ f below, s.stack = .component f :: below ∧ f.pending = [seekerClaim] ∧
    f.source.id ∉ Frame.ids below
  /-- There is no spare link, and no mortar. -/
  undeclared : ∀ c ∈ [seekerClaim, mortarClaim], s.declaredMatches c = []
  /-- The door is finished, and found by its wrappers. -/
  door : ∃ d, s.Prefers (pairClaim (.var "U")) d ∧ s.isResolved d.id = true
  /-- The wall is not, but is found by its wrappers. -/
  wall : ∃ d, s.declaredMatches (pairClaim selfLink) = [d] ∧ s.isResolved d.id = false ∧
    d.id ∉ Frame.ids s.stack ∧ d.claims = [mortarClaim]

namespace GoesRound

theorem forkDepth (h : GoesRound s) : s.forkDepth = 0 :=
  h.reachable.forkDepth_eq_zero_iff.2 rfl

/-- What is declared in a branch is not what could be found before. -/
theorem id_ne {y : Source} (h : GoesRound s) (hy : y ∈ s.declaredMatches c)
    (e : x.toDeclaration = ⟨d, s.catalog.nextId⟩) : y.id ≠ x.id := by
  have hi := h.reachable.identified
  have hm := (State.mem_sources_of_mem_declaredMatches hy).1
  have hlt : y.id < s.catalog.nextId :=
    hi.sound.fresh _ (Catalog.declares_of_mem hi.sound hm).2
  have hid : x.id = s.catalog.nextId := congrArg Declaration.id e
  rw [hid]
  exact hlt.ne

theorem tags_eq {t : Declaration} (h : GoesRound s) (ht : t ∈ s.catalog.templates) :
    t.tags = looseTags := by
  obtain ⟨ts, hts, -, hwrap⟩ := h.templates
  rw [hts] at ht
  rcases List.mem_cons.1 ht with rfl | ht
  · rfl
  · exact (hwrap t ht).tags_eq

/-- For the seeker, the templates become a wrapper of the door and wrappers of the wall. -/
theorem exists_specializations (h : GoesRound s) : ∃ d x xs,
    seekerClaim.specializations? maze.types 20 s.catalog.templates = some (d :: x :: xs) ∧
      IsWrapper (.var "U") d ∧ ∀ y ∈ x :: xs, IsWrapper selfLink y := by
  obtain ⟨ts, hts, hne, hwrap⟩ := h.templates
  obtain ⟨d, hd, hfinder⟩ := specialize?_finder
  obtain ⟨x, xs, hx⟩ : ∃ x xs, ts.map (·.instantiate linkContent) = x :: xs :=
    List.exists_cons_of_ne_nil (List.map_eq_nil_iff.not.2 hne)
  have hrest : ∀ y ∈ x :: xs, IsWrapper selfLink y := by
    rw [← hx]
    intro y hy
    obtain ⟨t, ht, rfl⟩ := List.mem_map.1 hy
    exact (specialize?_wrapper (hwrap t ht)).2
  have hall : ∀ y ∈ d :: x :: xs, ∃ t, IsWrapper t y :=
    List.forall_mem_cons.2 ⟨⟨_, hd⟩, fun y hy => ⟨_, hrest y hy⟩⟩
  have hmap : s.catalog.templates.mapM (fun t => t.specialize? maze.types 20 seekerClaim) =
      some ((d :: x :: xs).map some) := by
    rw [hts, List.mapM_cons, hfinder, mapM_eq_some fun t ht => (specialize?_wrapper (hwrap t ht)).1,
      List.map_cons, ← hx, List.map_map]
    rfl
  refine ⟨d, x, xs, ?_, hd, hrest⟩
  rw [Claim.specializations?_of_mapM hmap, IsWrapper.narrow_eq hall]

/-- The claim of the seeker is forked: into a wrapper of the door and wrappers of the wall. -/
theorem fork (h : GoesRound s) : ∃ n f d ds, maze.step n 0 none s = .ok (.fork f s) ∧
    f.candidates = d :: ds ∧ IsWrapper (.var "U") d ∧ ∀ x ∈ ds, IsWrapper selfLink x := by
  obtain ⟨f, below, hs, hf, hid⟩ := h.waiting
  obtain ⟨d, x, xs, hspec, hd, hrest⟩ := h.exists_specializations
  have htemplates : maze.fromTemplates 20 s seekerClaim = .ok (some (.fork (d :: x :: xs))) := by
    rw [fromTemplates, hspec]
    rfl
  have hnone := h.undeclared seekerClaim (by simp)
  have hr := State.resolvedMatches_eq_nil h.reachable.indexed h.reachable.identified hnone
  have hdecide : maze.decide 20 0 { s with stack := below } f.source seekerClaim =
      .ok (.fork (d :: x :: xs)) :=
    decide_of_templates (fromDeclarations_eq_none hr hnone) htemplates
  exact ⟨20, _, d, x :: xs, step_of_decide hs (Frame.not_closesCycle hid) hf rfl hdecide, rfl, hd,
    hrest⟩

/-- The branch for a wrapper begins. -/
theorem branch (h : GoesRound s) (hp : maze.step m 0 none s = .ok (.fork f s))
    (hm : d ∈ f.candidates) (hd : IsWrapper u d) (hu : u.hasVars = true) :
    ∃ n name x, maze.openBranch n s d = .ok (name, s.opened x) ∧
      Reachable maze mazeDrafts 0 (some f.claim) (s.opened x) ∧
      x.toDeclaration = ⟨d, s.catalog.nextId⟩ ∧ x.claims = [pairClaim u] ∧
      ¬ Frame.ClosesCycle x.id s.stack ∧ x.Fits f.claim := by
  have hi := h.reachable.identified
  obtain ⟨n, name, x, hr, ho, e⟩ := hd.exists_openBranch (hd.isTemplate hu) hi
  obtain ⟨-, -, -, hfresh⟩ := hi.register hr
  refine ⟨n, name, x, ho, ?_, e, ?_, Frame.not_closesCycle hfresh,
    fits_of_registerSource? (forksAt_of_step hp).2 hm hr⟩
  · exact h.reachable.branch (step_of_le (Nat.le_max_left m n) hp) (h.forkDepth ▸ by decide) hm
      (openBranch_of_le (Nat.le_max_right m n) ho)
  · rw [e]
    exact hd.claims_eq

/-- With a wrapper of the door finished, the seeker is where it was, with one more template. -/
theorem adopted {es : List Edge} (h : GoesRound s) (hd : IsWrapper (.var "U") d)
    (e : x.toDeclaration = ⟨d, s.catalog.nextId⟩) (hs : Reachable maze mazeDrafts 0 none
      (({ s.opened x with stack := s.stack }.commit x es).atDepth s.forkDepth)) :
    GoesRound (({ s.opened x with stack := s.stack }.commit x es).atDepth s.forkDepth) := by
  obtain ⟨ts, hts, -, hwrap⟩ := h.templates
  obtain ⟨door, hdoor, hres⟩ := h.door
  obtain ⟨wall, hwall, hunres, hids, hneeds⟩ := h.wall
  refine ⟨hs, ⟨ts ++ [x.toDeclaration], ?_, by simp, ?_⟩, h.waiting, h.undeclared,
    ⟨door, hdoor.congr rfl, ?_⟩, wall, hwall, ?_, hids, hneeds⟩
  · exact congrArg (· ++ [x.toDeclaration]) hts
  · intro t ht
    rcases List.mem_append.1 ht with ht | ht
    · exact hwrap t ht
    · rw [List.mem_singleton.1 ht, e]
      exact hd
  · exact (State.grows_commit _ x _).isResolved hres
  · refine State.isResolved_eq_false.2 fun y hy => ?_
    rcases List.mem_append.1 hy with hy | hy
    · exact State.isResolved_eq_false.1 hunres y hy
    · rw [List.mem_singleton.1 hy]
      exact (h.id_ne (hwall ▸ List.mem_singleton_self wall) e).symm

/-- The branch for a wrapper of the door succeeds, and adds a template. -/
theorem succeeds (h : GoesRound s) (hp : maze.step m 0 none s = .ok (.fork f s))
    (hm : d ∈ f.candidates) (hd : IsWrapper (.var "U") d) :
    ∃ n name b t, maze.openBranch n s d = .ok (name, b) ∧
      Ends maze 0 (some f.claim) b (.ok (.satisfied t)) ∧
      (Reachable maze mazeDrafts 0 none (t.atDepth s.forkDepth) →
        GoesRound (t.atDepth s.forkDepth)) := by
  obtain ⟨n, name, x, ho, hb, e, hclaims, hclose, hfits⟩ := h.branch hp hm hd rfl
  obtain ⟨door, hdoor, hres⟩ := h.door
  obtain ⟨i, hi⟩ := Option.isSome_iff_exists.1 hres
  obtain ⟨fit, hfit⟩ := Option.isSome_iff_exists.1 hdoor.fits
  have hdoor : (s.opened x).Prefers (pairClaim (.var "U")) door := hdoor.congr rfl
  have hends : Ends maze 0 (some f.claim) (s.opened x) (.ok (.satisfied
      ({ s.opened x with stack := s.stack }.commit x
        [.single (pairClaim (.var "U")) (fit.target i)]))) := by
    refine ends_of_bind (n := 0) (g := .start x) rfl hclose hclaims rfl ?_ (decide_eq_true hfits)
    exact decide_of_position? hdoor hb.indexed hb.identified hi hfit s.stack
  exact ⟨n, name, _, _, ho, hends, h.adopted hd e⟩

/-- In the branch for a wrapper, there is no mortar either. -/
theorem decide_mortar (h : GoesRound s) (hb : Reachable maze mazeDrafts 0 goal (s.opened x))
    (hd : IsWrapper u d) (e : x.toDeclaration = ⟨d, s.catalog.nextId⟩) (q : Source) :
    maze.decide 0 0 (s.opened x) q mortarClaim =
      .error (.failure (maze.unresolved (s.opened x) q mortarClaim)) := by
  have hnone : (s.opened x).declaredMatches mortarClaim = [] := h.undeclared mortarClaim (by simp)
  have hr := State.resolvedMatches_eq_nil hb.indexed hb.identified hnone
  have htags : ∀ t ∈ (s.opened x).catalog.templates, t.tags = looseTags := by
    intro t ht
    rcases List.mem_append.1 ht with ht | ht
    · exact h.tags_eq ht
    · rw [List.mem_singleton.1 ht, e]
      exact hd.tags_eq
  have hspec : mortarClaim.specializations? maze.types 0 (s.opened x).catalog.templates = some [] :=
    Claim.specializations?_eq_nil fun t ht => htags t ht ▸ by decide +kernel
  refine decide_of_nothing (fromDeclarations_eq_none hr hnone) ?_ rfl (fromExtensions_eq_none rfl)
  rw [fromTemplates, hspec]
  rfl

/-- The branch for a wrapper of the wall fails. -/
theorem fails (h : GoesRound s) (hp : maze.step m 0 none s = .ok (.fork f s))
    (hm : d ∈ f.candidates) (hd : IsWrapper selfLink d) : BranchFails maze 0 f s d := by
  obtain ⟨n, name, x, ho, hb, e, hclaims, hclose, -⟩ := h.branch hp hm hd rfl
  obtain ⟨wall, hwall, hunres, hids, hneeds⟩ := h.wall
  have hne : wall.id ≠ x.id := h.id_ne (hwall ▸ List.mem_singleton_self wall) e
  have hfresh : wall.id ∉ Frame.ids (s.opened x).stack :=
    List.not_mem_cons_of_ne_of_not_mem hne hids
  have hfail : maze.step 0 0 (some f.claim)
      { s.opened x with stack := .component (.start wall) :: (s.opened x).stack } =
        .error (.failure (maze.unresolved (s.opened x) wall mortarClaim)) :=
    step_of_decide_error rfl (Frame.not_closesCycle hfresh) hneeds rfl
      (h.decide_mortar hb hd e wall)
  have hbegun := step_wall hb hclaims hclose hwall hunres
  exact branchFails_of_ends ho ((ends_iff_of_next hbegun).2 (ends_of_step_error hfail)) rfl

/-- **The only branch that succeeds is adopted, and leaves the claim to be forked again.** -/
theorem onward (h : GoesRound s) : ∃ t, maze.Onward 0 (none, s) (none, t) ∧ GoesRound t := by
  obtain ⟨n, f, d, ds, hp, hc, hd, hds⟩ := h.fork
  obtain ⟨m, name, b, t, ho, ⟨-, k, hrun⟩, hround⟩ := h.succeeds hp (hc ▸ List.mem_cons_self) hd
  have hfail : ∀ x ∈ [] ++ ds, BranchFails maze 0 f s x := fun x hx =>
    h.fails hp (hc ▸ List.mem_cons_of_mem d hx) (hds x hx)
  obtain ⟨l, hl⟩ := settle_of_survivor hfail hc
    (openBranch_of_le (Nat.le_max_left m k) ho) (run_of_le (Nat.le_max_right m k) nofun hrun) rfl
  obtain ⟨found, he, hset⟩ := hl (max n l) (Nat.le_max_right n l)
  have hdepth : s.forkDepth < maze.settings.maxForkDepth := h.forkDepth ▸ by decide
  have hp := step_of_le (Nat.le_max_left n l) hp
  exact ⟨_, .adopt hp hdepth he hset, hround (h.reachable.adopt hp hdepth he hset)⟩

/-- Whether the seeker is at work, and there is one wrapper of the door. -/
def begins (s : State) : Bool :=
  (match s.catalog.templates with
    | [t, w] => t == finderTemplate && w.toDraft == wrapperDraft (.var "U") w.name w.origin
    | _ => false) &&
  (match s.stack with
    | .component f :: below => f.pending == [seekerClaim] && !(Frame.ids below).contains f.source.id
    | _ => false) &&
  ([seekerClaim, mortarClaim].all fun c => (s.declaredMatches c).isEmpty) &&
  (s.catalog.sources.any fun d =>
    Decidable.decide (s.Prefers (pairClaim (.var "U")) d) && s.isResolved d.id) &&
  (match s.declaredMatches (pairClaim selfLink) with
    | [d] => !s.isResolved d.id && !(Frame.ids s.stack).contains d.id && d.claims == [mortarClaim]
    | _ => false)

/-- The round comes to the first fork. -/
theorem exists_begins : ∃ s, GoesRound s := by
  obtain ⟨s, hs, h⟩ := exists_reachable maze 60 mazeDrafts 0 10 begins (by decide +kernel)
  simp only [begins, Bool.and_eq_true] at h
  obtain ⟨⟨⟨⟨ht, hw⟩, hu⟩, hd⟩, hwall⟩ := h
  refine ⟨s, hs, ?templates, ?waiting, by simpa using hu, ?door, ?wall⟩
  case templates =>
    split at ht
    · next t w htemplates =>
      simp only [Bool.and_eq_true, beq_iff_eq] at ht
      obtain ⟨rfl, hw⟩ := ht
      exact ⟨[w], htemplates, by simp, by simpa using IsWrapper.iff_eq.2 hw⟩
    · cases ht
  case waiting =>
    split at hw
    · next f below hstack =>
      simp only [Bool.and_eq_true, beq_iff_eq] at hw
      exact ⟨f, below, hstack, hw.1, by simpa using hw.2⟩
    · cases hw
  case door =>
    obtain ⟨d, -, h⟩ := List.any_eq_true.1 hd
    exact ⟨d, by simpa using h⟩
  case wall =>
    split at hwall
    · next d hm =>
      simp only [Bool.and_eq_true, beq_iff_eq] at hwall
      obtain ⟨⟨hr, hids⟩, hneeds⟩ := hwall
      exact ⟨d, hm, by simpa using hr, by simpa using hids, hneeds⟩
    · cases hwall

end GoesRound

/-- **With constructors that claim variables, a round may never end**, without any template among
the drafts and without extensions, although every type reaches finitely many types. -/
theorem maze_never_ends : maze.types.Finitary ∧ maze.extensions = [] ∧
    (∀ d ∈ mazeDrafts, d.validate = .ok () ∧ d.isTemplate = false) ∧
    ∀ n, maze.resolve n mazeDrafts 0 = .error .outOfFuel := by
  have hdrafts : ∀ d ∈ mazeDrafts, d.validate = .ok () ∧ d.isTemplate = false := by
    simp only [mazeDrafts, List.forall_mem_cons]
    exact ⟨⟨rfl, rfl⟩, ⟨rfl, rfl⟩, ⟨rfl, rfl⟩, ⟨rfl, rfl⟩, List.forall_mem_nil _⟩
  refine ⟨finitary_maze, rfl, hdrafts, fun n => ?_⟩
  obtain ⟨s, hs⟩ := GoesRound.exists_begins
  by_contra hy
  obtain ⟨x, ⟨hx, m, hm⟩, -⟩ := hs.reachable.yields_iff.1 ⟨hy, n, rfl⟩
  exact hx (hm.symm.trans (outOfFuel_of_onward (fun _ h => h.onward) hs m))

end Resolver

end Wiring
