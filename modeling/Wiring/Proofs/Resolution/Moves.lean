import Mathlib.Logic.Relation
import Wiring.Proofs.Resolution.Lookup
import Wiring.Resolution.Run
/-!
# The moves of a resolution

`Resolver.Move` lists, as a relation between states, everything that a resolution does to its
state: it takes roots from the stack, breaks cycles, finishes components, answers claims, and
starts what they wait for, declaring it first if need be. What is true at the start and kept by
each move is true throughout, whatever the order in which frames, proxies, collections and
branches of forks follow one another.

* `Resolver.leap_of_step`: each step of the stack is made of moves, or leads to a fork and leaves
  the state as it is.
* `Resolver.moves_of_openBranch`: a branch of a fork begins with moves, too.

The relations beside it say what a claim leads to: `Resolver.Answers` is the edge that satisfies a
claim in a state, `Resolver.Supplies` the draft that is declared for one on the fly, and
`Resolver.Decides` collects the outcomes of `Resolver.decide`.
-/

namespace Wiring

/-! ## Components on the stack -/

namespace Frame

/-- The identities of the components on a stack, the one that is worked on first. -/
def ids (stack : List Frame) : List Nat := (stack.filterMap source?).map (·.id)

@[simp] theorem ids_nil : ids [] = [] := rfl

@[simp] theorem ids_root (d : Source) (stack : List Frame) :
    ids (.root d :: stack) = ids stack := rfl

@[simp] theorem ids_component (f : ComponentFrame) (stack : List Frame) :
    ids (.component f :: stack) = f.source.id :: ids stack := rfl

@[simp] theorem ids_append (above below : List Frame) :
    ids (above ++ below) = ids above ++ ids below := by
  simp [ids]

/-- The component of this identity closes a cycle above these frames: it is being worked on, and
the frame on top waits with a claim. -/
def ClosesCycle (id : Nat) (below : List Frame) : Prop :=
  ∃ w rest, below = .component w :: rest ∧ w.pending ≠ [] ∧ id ∈ ids below

theorem not_closesCycle {id : Nat} {below : List Frame} (h : id ∉ ids below) :
    ¬ ClosesCycle id below := by
  rintro ⟨_, _, -, -, hm⟩
  exact h hm

end Frame

theorem State.isInProgress_iff {s : State} {id : Nat} :
    s.isInProgress id = true ↔ id ∈ Frame.ids s.stack := by
  simp only [isInProgress, inProgress, Frame.ids, List.any_eq_true, List.mem_map, beq_iff_eq]

/-- The state with one more proxy, which stands for `d` where a type is claimed. -/
def State.forwarded (s : State) (catalog : Catalog) (proxy d : Source) (claimed : TypeExpr) :
    State :=
  { { s with catalog }.commit proxy [.proxyParameter d.forwardingClaim d.id none] with
    proxies := ((claimed, d.id), s.resolved.length) :: s.proxies }

/-! ## What a claim leads to -/

namespace Resolver

/-- The edge satisfies the claim in the state. -/
inductive Answers (r : Resolver) (s : State) (c : Claim) : Edge → Prop
  /-- A finished component is found. -/
  | finished {m : Match} (hk : c.kind.isSingle = true) (hm : m ∈ s.resolvedMatches c) :
      Answers r s c (.single c m.target)
  /-- A declaration is found whose component is finished. -/
  | declared {d : Source} {i : Nat} {fit : Fit} (hk : c.kind.isSingle = true)
      (hd : d ∈ s.declaredMatches c) (hi : s.position? d.id = some i) (hf : d.fit? c = some fit) :
      Answers r s c (.single c (fit.target i))
  /-- There is neither a declaration nor a template, and the claim is nullable. -/
  | absent (hk : c.kind.isNullable = true) (hd : s.declaredMatches c = [])
      (ht : ∀ t ∈ s.catalog.templates, c.tags.Accepts t.tags → ¬ r.types.Unifies t.type c.type) :
      Answers r s c (.absent c)
  /-- All matches of a collecting claim are finished. -/
  | every (hk : c.kind.isAll = true) (ha : s.awaited c = none) :
      Answers r s c (.allOf c ((s.resolvedMatches c).map Match.target))
  /-- The claim asks for a token only. -/
  | token (hk : c.kind = .typeRef) : Answers r s c (.typeToken c)

/-- The declaration satisfies the claim, and its component is still to be built. -/
structure Awaits (s : State) (c : Claim) (d : Source) : Prop where
  /-- It satisfies the claim. -/
  declared : d ∈ s.declaredMatches c
  /-- Its component is not finished. -/
  unresolved : s.isResolved d.id = false
  /-- The claim is on one instance, or on all, defaults excepted. -/
  wanted : c.kind.isSingle = true ∨ c.kind.isAll = true ∧ d.isDefault = false

/-- The draft is declared on the fly for the claim. -/
inductive Supplies (r : Resolver) (s : State) (c : Claim) : Draft → Prop
  /-- A template is specialized. -/
  | specialized {t : Declaration} {σ : Substitution} {n : Nat} (ht : t ∈ s.catalog.templates)
      (ha : c.tags.Accepts t.tags) (hu : r.types.unify? n t.type c.type = some (some σ)) :
      Supplies r s c (t.instantiate σ)
  /-- An optional type is wrapped around its inner instance. -/
  | wrapper {inner : TypeExpr} (h : r.types.optionalInner? c.type = some inner) :
      Supplies r s c (optionalDraft c inner)
  /-- A final type is declared by its constructor. -/
  | final {a : AutoConstructor} (h : r.types.autoConstructor? c.type = some a)
      (ha : c.tags.Accepts a.tags) : Supplies r s c (finalDraft c a)

/-- The outcomes of a claim on one instance. -/
inductive Decides (r : Resolver) (s : State) (c : Claim) : Decision → Prop
  /-- It is answered. -/
  | bind {e : Edge} (he : Answers r s c e) : Decides r s c (.bind e)
  /-- A declaration is to be built first. -/
  | await {d : Source} (hd : Awaits s c d) : Decides r s c (.build d s.catalog)
  /-- A draft is declared, and is to be built first. -/
  | supply {n : Nat} {draft : Draft} {d : Source} {catalog : Catalog}
      (hn : s.declaredMatches c = []) (hs : Supplies r s c draft)
      (hr : s.catalog.registerSource? r.types n draft = some (d, catalog)) :
      Decides r s c (.build d catalog)
  /-- An extension supplies a draft. -/
  | extend {n : Nat} {name : String} {draft : Draft} {d : Declaration} {catalog : Catalog}
      (hr : s.catalog.register? r.types n { draft with origin := .extension name } =
        some (d, catalog)) (he : r.extensions ≠ []) : Decides r s c (.retry catalog)
  /-- Several specialized templates are to be tried. -/
  | fork {candidates : List Draft} (hn : s.declaredMatches c = [])
      (hs : ∀ d ∈ candidates, Supplies r s c d) : Decides r s c (.fork candidates)
  /-- Another round is demanded. -/
  | restart (q : RestartRequest) : Decides r s c (.restart q)

/-- What is done to the state of a resolution. -/
inductive Move (r : Resolver) (s : State) : State → Prop
  /-- A root that is finished is taken from the stack. -/
  | skip {d : Source} {below : List Frame} (hs : s.stack = .root d :: below)
      (hd : s.isResolved d.id = true) : Move r s { s with stack := below }
  /-- A root is started. -/
  | expand {d : Source} {below : List Frame} (hs : s.stack = .root d :: below)
      (hd : s.isResolved d.id = false) : Move r s ({ s with stack := below }.push d)
  /-- A proxy is made, with which a cycle can be broken. -/
  | forward {f w : ComponentFrame} {below : List Frame} {c : Claim} {cs : List Claim} {n : Nat}
      {proxy : Source} {catalog : Catalog}
      (hs : s.stack = .component f :: .component w :: below) (hw : w.pending = c :: cs)
      (hf : f.source.id ∈ Frame.ids (.component w :: below)) (hk : c.kind.isSingle = true)
      (ht : (r.types.kind c.type).isSubstitutable = true)
      (hp : s.proxies.lookup (c.type, f.source.id) = none)
      (hr : s.catalog.registerSource? r.types n (r.proxyDraft f.source c.type) =
        some (proxy, catalog)) : Move r s (s.forwarded catalog proxy f.source c.type)
  /-- A cycle is broken by a proxy. -/
  | bypass {f w : ComponentFrame} {below : List Frame} {c : Claim} {cs : List Claim} {i : Nat}
      (hs : s.stack = .component f :: .component w :: below) (hw : w.pending = c :: cs)
      (hf : f.source.id ∈ Frame.ids (.component w :: below)) (hk : c.kind.isSingle = true)
      (ht : (r.types.kind c.type).isSubstitutable = true)
      (hp : s.proxies.lookup (c.type, f.source.id) = some i) :
      Move r s { s with stack := .component (w.answer (.single c ⟨i, false⟩)) :: below }
  /-- A component is finished. -/
  | commit {f : ComponentFrame} {below : List Frame} (hs : s.stack = .component f :: below)
      (hb : ¬ Frame.ClosesCycle f.source.id below) (hf : f.pending = []) :
      Move r s ({ s with stack := below }.commit f.source f.edges)
  /-- A claim is answered. -/
  | answer {f : ComponentFrame} {below : List Frame} {c : Claim} {cs : List Claim} {e : Edge}
      (hs : s.stack = .component f :: below) (hb : ¬ Frame.ClosesCycle f.source.id below)
      (hf : f.pending = c :: cs) (he : Answers r s c e) :
      Move r s { s with stack := .component (f.answer e) :: below }
  /-- A declaration that satisfies a claim is started. -/
  | await {f : ComponentFrame} {below : List Frame} {c : Claim} {cs : List Claim} {d : Source}
      (hs : s.stack = .component f :: below) (hb : ¬ Frame.ClosesCycle f.source.id below)
      (hf : f.pending = c :: cs) (hd : Awaits s c d) : Move r s (s.push d)
  /-- A draft is declared for a claim, and started. -/
  | supply {f : ComponentFrame} {below : List Frame} {c : Claim} {cs : List Claim} {n : Nat}
      {draft : Draft} {d : Source} {catalog : Catalog} (hs : s.stack = .component f :: below)
      (hb : ¬ Frame.ClosesCycle f.source.id below) (hf : f.pending = c :: cs)
      (hn : s.declaredMatches c = []) (hd : Supplies r s c draft)
      (hr : s.catalog.registerSource? r.types n draft = some (d, catalog))
      (hk : c.kind.isSingle = true) : Move r s ({ s with catalog }.push d)
  /-- A draft of an extension is declared. -/
  | extend {n : Nat} {name : String} {draft : Draft} {d : Declaration} {catalog : Catalog}
      (hr : s.catalog.register? r.types n { draft with origin := .extension name } =
        some (d, catalog)) (he : r.extensions ≠ []) : Move r s { s with catalog }
  /-- A fork is entered or left. -/
  | nest (depth : Nat) : Move r s { s with forkDepth := depth }

/-- Any number of moves. -/
abbrev Moves (r : Resolver) : State → State → Prop := Relation.ReflTransGen r.Move

/-- What one step does: a move, before which a proxy may be made for it, with the stack as it is. -/
def Leap (r : Resolver) (s t : State) : Prop :=
  ∃ s', (s' = s ∨ s'.stack = s.stack ∧ r.Move s s') ∧ r.Move s' t

theorem Move.leap {r : Resolver} {s t : State} (h : r.Move s t) : Leap r s t := ⟨s, .inl rfl, h⟩

theorem Leap.moves {r : Resolver} {s t : State} (h : Leap r s t) : Moves r s t := by
  obtain ⟨s', rfl | ⟨-, hs⟩, ht⟩ := h
  · exact .single ht
  · exact .tail (.single hs) ht

/-! ## What a decision may be -/

variable {r : Resolver} {n round : Nat} {s t : State} {c : Claim} {q : Source} {d : Decision}
  {goal : Option Claim}

theorem bind_eq_ok {ε α β : Type} {x : Except ε α} {f : α → Except ε β} {b : β} :
    (x >>= f) = .ok b ↔ ∃ a, x = .ok a ∧ f a = .ok b := by
  cases x with
  | error e => simp [bind, Except.bind]
  | ok a => simp [bind, Except.bind]

theorem bind_eq_error {ε α β : Type} {x : Except ε α} {f : α → Except ε β} {e : ε} :
    (x >>= f) = .error e ↔ x = .error e ∨ ∃ a, x = .ok a ∧ f a = .error e := by
  cases x with
  | error e' => simp [bind, Except.bind]
  | ok a => simp [bind, Except.bind]

theorem checked_eq_ok {α : Type} {x : Except Error α} {a : α} :
    checked x = .ok a ↔ x = .ok a := by
  cases x <;> simp [checked]

theorem budgeted_eq_ok {α : Type} {x : Option α} {a : α} :
    budgeted x = .ok a ↔ x = some a := by
  cases x <;> simp [budgeted]

theorem decides_of_declarations (hk : c.kind.isSingle = true)
    (h : fromDeclarations s q c = .ok (some d)) : Decides r s c d := by
  obtain ⟨m?, hm, h⟩ := bind_eq_ok.1 h
  cases m? with
  | some m =>
    cases h
    exact .bind (.finished hk (State.mem_of_findResolved (settle_eq_some (checked_eq_ok.1 hm))))
  | none =>
    obtain ⟨d?, hd, h⟩ := bind_eq_ok.1 h
    cases d? with
    | none => cases h
    | some d =>
      have hd := mem_of_pick_eq_one (settle_eq_some (checked_eq_ok.1 hd))
      dsimp only at h
      split at h
      · next i fit hi hf =>
        cases h
        exact .bind (.declared hk hd hi hf)
      · next hne =>
        cases h
        -- The declaration fits, so there is no position.
        obtain ⟨-, -, hf⟩ := State.mem_sources_of_mem_declaredMatches hd
        obtain ⟨fit, hf⟩ := Option.isSome_iff_exists.1 hf
        refine .await ⟨hd, ?_, .inl hk⟩
        cases hp : s.position? d.id with
        | none => simp [State.isResolved, hp]
        | some i => exact absurd hf (hne i fit hp)

theorem declaredMatches_of_declarations (h : fromDeclarations s q c = .ok none) :
    s.declaredMatches c = [] := by
  obtain ⟨m?, hm, h⟩ := bind_eq_ok.1 h
  cases m? with
  | some m => cases h
  | none =>
    obtain ⟨d?, hd, h⟩ := bind_eq_ok.1 h
    cases d? with
    | none => exact pick_eq_absent (settle_eq_none (checked_eq_ok.1 hd))
    | some d =>
      dsimp only at h
      split at h <;> cases h

theorem decides_of_buildNew {draft : Draft} (hn : s.declaredMatches c = [])
    (hs : Supplies r s c draft) (h : r.buildNew n s draft = .ok (some d)) : Decides r s c d := by
  obtain ⟨⟨new, catalog⟩, hr, h⟩ := bind_eq_ok.1 h
  cases h
  exact .supply hn hs (budgeted_eq_ok.1 hr)

theorem supplies_of_mem {ds : List Draft} {draft : Draft}
    (h : c.specializations? r.types n s.catalog.templates = some ds) (hd : draft ∈ ds) :
    Supplies r s c draft := by
  obtain ⟨t, ht, σ, ha, hu, rfl⟩ := Claim.mem_specializations h hd
  exact .specialized ht ha hu

theorem decides_of_templates (hn : s.declaredMatches c = [])
    (h : r.fromTemplates n s c = .ok (some d)) : Decides r s c d := by
  obtain ⟨ds, hs, h⟩ := bind_eq_ok.1 h
  have hs := budgeted_eq_ok.1 hs
  split at h
  · cases h
  · exact decides_of_buildNew hn (supplies_of_mem hs (List.mem_singleton_self _)) h
  · cases h
    exact .fork hn fun _ hd => supplies_of_mem hs hd

theorem not_unifies_of_templates (h : r.fromTemplates n s c = .ok none) :
    ∀ t ∈ s.catalog.templates, c.tags.Accepts t.tags → ¬ r.types.Unifies t.type c.type := by
  obtain ⟨ds, hs, h⟩ := bind_eq_ok.1 h
  split at h
  · exact fun t ht ha => Claim.not_unifies_of_specializations (budgeted_eq_ok.1 hs) ht ha
  · obtain ⟨new, -, h⟩ := bind_eq_ok.1 h
    cases h
  · cases h

theorem decides_of_nothing (hn : s.declaredMatches c = [])
    (ht : ∀ t ∈ s.catalog.templates, c.tags.Accepts t.tags → ¬ r.types.Unifies t.type c.type)
    (h : r.fromNothing n s c = .ok (some d)) : Decides r s c d := by
  unfold fromNothing at h
  split at h <;> rename_i hk
  · cases h
    exact .bind (.absent hk hn ht)
  · split at h
    · next inner hi => exact decides_of_buildNew hn (.wrapper hi) h
    · split at h
      · next a hc =>
        split at h <;> rename_i ha
        · exact decides_of_buildNew hn (.final hc ha) h
        · cases h
      · cases h

/-- A draft that is accepted can satisfy the claim, and is declared. -/
theorem accepted {name : String} {draft : Draft} (h : r.accept n s c name draft = .ok d) :
    ∃ x catalog, d = .retry catalog ∧
      { draft with origin := .extension name }.validate = .ok () ∧
      r.canSatisfy? n { draft with origin := .extension name } c = some true ∧
      s.catalog.register? r.types n { draft with origin := .extension name } =
        some (x, catalog) := by
  obtain ⟨_, hv, h⟩ := bind_eq_ok.1 h
  obtain ⟨b, hb, h⟩ := bind_eq_ok.1 h
  split at h
  · next hb' =>
    obtain ⟨⟨x, catalog⟩, hr, h⟩ := bind_eq_ok.1 h
    cases h
    exact ⟨x, catalog, rfl, checked_eq_ok.1 hv, hb' ▸ budgeted_eq_ok.1 hb, budgeted_eq_ok.1 hr⟩
  · cases h

theorem decides_of_accept {name : String} {draft : Draft} (he : r.extensions ≠ [])
    (h : r.accept n s c name draft = .ok d) : Decides r s c d := by
  obtain ⟨x, catalog, rfl, -, -, hr⟩ := accepted h
  exact .extend hr he

theorem decides_of_extensions (h : r.fromExtensions n round s q c = .ok (some d)) :
    Decides r s c d := by
  obtain ⟨o, ho, h⟩ := bind_eq_ok.1 h
  split at h
  · obtain ⟨x, ha, h⟩ := bind_eq_ok.1 h
    cases h
    refine decides_of_accept (fun he => ?_) ha
    rw [he] at ho
    cases ho
  · cases h
    exact .restart _
  · cases h
  · cases h

/-- The claim is answered, or a component is to be built for it. -/
inductive Decision.Direct : Decision → Prop
  /-- It is answered. -/
  | bind (e : Edge) : Direct (.bind e)
  /-- A component is to be built. -/
  | build (x : Source) (catalog : Catalog) : Direct (.build x catalog)

theorem direct_of_declarations (h : fromDeclarations s q c = .ok (some d)) :
    Decision.Direct d := by
  obtain ⟨m?, -, h⟩ := bind_eq_ok.1 h
  cases m? with
  | some m =>
    cases h
    exact .bind _
  | none =>
    obtain ⟨d?, -, h⟩ := bind_eq_ok.1 h
    cases d? with
    | none => cases h
    | some x =>
      dsimp only at h
      split at h <;> cases h
      · exact .bind _
      · exact .build _ _

theorem direct_of_buildNew {draft : Draft} (h : r.buildNew n s draft = .ok (some d)) :
    Decision.Direct d := by
  obtain ⟨⟨x, catalog⟩, -, h⟩ := bind_eq_ok.1 h
  cases h
  exact .build x catalog

theorem direct_of_nothing (h : r.fromNothing n s c = .ok (some d)) :
    Decision.Direct d := by
  unfold fromNothing at h
  split at h
  · cases h
    exact .bind _
  · split at h
    · exact direct_of_buildNew h
    · split at h
      · split at h
        · exact direct_of_buildNew h
        · cases h
      · cases h

/-- A claim that templates satisfy leads to an instance of one, or to a fork of several. -/
theorem direct_or_fork_of_templates (h : r.fromTemplates n s c = .ok (some d)) :
    Decision.Direct d ∨ ∃ ds, ds ≠ [] ∧ d = .fork ds := by
  obtain ⟨ds, -, h⟩ := bind_eq_ok.1 h
  split at h
  · cases h
  · exact .inl (direct_of_buildNew h)
  · next hne _ =>
    cases h
    exact .inr ⟨_, hne, rfl⟩

/-- Extensions lead to another look at the claim, or to another round. -/
theorem retry_or_restart_of_extensions (h : r.fromExtensions n round s q c = .ok (some d)) :
    (∃ catalog, d = .retry catalog) ∨ ∃ request, d = .restart request := by
  obtain ⟨o, -, h⟩ := bind_eq_ok.1 h
  split at h
  · obtain ⟨x, hx, h⟩ := bind_eq_ok.1 h
    cases h
    obtain ⟨-, catalog, rfl, -⟩ := accepted hx
    exact .inl ⟨catalog, rfl⟩
  · cases h
    exact .inr ⟨_, rfl⟩
  · cases h
  · cases h

/-- A claim is satisfied in the first of four ways that leads anywhere. -/
theorem cases_of_decide (h : r.decide n round s q c = .ok d) :
    fromDeclarations s q c = .ok (some d) ∨ fromDeclarations s q c = .ok none ∧
      (r.fromTemplates n s c = .ok (some d) ∨ r.fromTemplates n s c = .ok none ∧
        (r.fromNothing n s c = .ok (some d) ∨ r.fromExtensions n round s q c = .ok (some d))) := by
  obtain ⟨d₁, h₁, h⟩ := bind_eq_ok.1 h
  cases d₁ with
  | some d₁ => cases h; exact .inl h₁
  | none =>
    obtain ⟨d₂, h₂, h⟩ := bind_eq_ok.1 h
    cases d₂ with
    | some d₂ => cases h; exact .inr ⟨h₁, .inl h₂⟩
    | none =>
      obtain ⟨d₃, h₃, h⟩ := bind_eq_ok.1 h
      cases d₃ with
      | some d₃ => cases h; exact .inr ⟨h₁, .inr ⟨h₂, .inl h₃⟩⟩
      | none =>
        obtain ⟨d₄, h₄, h⟩ := bind_eq_ok.1 h
        cases d₄ with
        | some d₄ => cases h; exact .inr ⟨h₁, .inr ⟨h₂, .inr h₄⟩⟩
        | none => cases h

/-- What breaks off a claim is one of the four ways to satisfy it, unless each leads nowhere. -/
theorem cases_of_decide_error {i : Interrupt} (h : r.decide n round s q c = .error i) :
    fromDeclarations s q c = .error i ∨ fromDeclarations s q c = .ok none ∧
      (r.fromTemplates n s c = .error i ∨ r.fromTemplates n s c = .ok none ∧
        (r.fromNothing n s c = .error i ∨ r.fromNothing n s c = .ok none ∧
          (r.fromExtensions n round s q c = .error i ∨
            r.fromExtensions n round s q c = .ok none ∧ i = .failure (r.unresolved s q c)))) := by
  rcases bind_eq_error.1 h with h | ⟨d₁, h₁, h⟩
  · exact .inl h
  cases d₁ with
  | some d => cases h
  | none =>
    refine .inr ⟨h₁, ?_⟩
    rcases bind_eq_error.1 h with h | ⟨d₂, h₂, h⟩
    · exact .inl h
    cases d₂ with
    | some d => cases h
    | none =>
      refine .inr ⟨h₂, ?_⟩
      rcases bind_eq_error.1 h with h | ⟨d₃, h₃, h⟩
      · exact .inl h
      cases d₃ with
      | some d => cases h
      | none =>
        refine .inr ⟨h₃, ?_⟩
        rcases bind_eq_error.1 h with h | ⟨d₄, h₄, h⟩
        · exact .inl h
        cases d₄ with
        | some d => cases h
        | none =>
          cases h
          exact .inr ⟨h₄, rfl⟩

/-- **What `decide` gives is one of the outcomes listed.** -/
theorem decides_of_decide (hk : c.kind.isSingle = true) (h : r.decide n round s q c = .ok d) :
    Decides r s c d := by
  rcases cases_of_decide h with h | ⟨h₁, h | ⟨h₂, h | h⟩⟩
  · exact decides_of_declarations hk h
  · exact decides_of_templates (declaredMatches_of_declarations h₁) h
  · exact decides_of_nothing (declaredMatches_of_declarations h₁) (not_unifies_of_templates h₂) h
  · exact decides_of_extensions h

theorem leap_of_breakCycle {f : ComponentFrame} {below : List Frame}
    (hs : s.stack = .component f :: below)
    (h : r.breakCycle n { s with stack := below } f.source = .ok (some t)) : Leap r s t := by
  unfold breakCycle at h
  dsimp only at h
  split at h
  · next w rest =>
    split at h
    · next c cs hw =>
      split at h
      · next hp =>
        split at h
        · next hk =>
          obtain ⟨⟨i, s'⟩, hi, h⟩ := bind_eq_ok.1 h
          obtain ⟨hk, ht⟩ := Bool.and_eq_true_iff.1 hk
          have hf := State.isInProgress_iff.1 hp
          unfold proxyFor at hi
          split at hi
          · next hl =>
            cases hi
            cases h
            exact (Move.bypass hs hw hf hk ht hl).leap
          · next hl =>
            obtain ⟨⟨proxy, catalog⟩, hr, hi⟩ := bind_eq_ok.1 hi
            cases hi
            cases h
            have hm := Move.forward hs hw hf hk ht hl (budgeted_eq_ok.1 hr)
            refine ⟨s.forwarded catalog proxy f.source c.type, .inr ⟨rfl, hm⟩, ?_⟩
            exact .bypass hs hw hf hk ht (by simp [State.forwarded])
        · cases h
      · cases h
    · cases h
  · cases h

theorem not_closesCycle_of_breakCycle {f : ComponentFrame} {below : List Frame}
    (h : r.breakCycle n { s with stack := below } f.source = .ok none) :
    ¬ Frame.ClosesCycle f.source.id below := by
  rintro ⟨w, rest, rfl, hw, hf⟩
  obtain ⟨c, cs, hw⟩ := List.exists_cons_of_ne_nil hw
  have hp := (State.isInProgress_iff (s := { s with stack := .component w :: rest })).2 hf
  unfold breakCycle at h
  simp only [hw, hp, if_true] at h
  split at h
  · obtain ⟨⟨i, s'⟩, -, h⟩ := bind_eq_ok.1 h
    cases h
  · cases h

/-! What a claim leads to does not depend on the stack. -/

theorem Answers.withStack {stack : List Frame} {e : Edge} (h : Answers r { s with stack } c e) :
    Answers r s c e := by
  cases h with
  | finished hk hm => exact .finished (s := s) hk hm
  | declared hk hd hi hf => exact .declared (s := s) hk hd hi hf
  | absent hk hd ht => exact .absent hk hd ht
  | every hk ha => exact .every (s := s) hk ha
  | token hk => exact .token hk

/-- What is declared on the fly depends on the templates only. -/
theorem Supplies.congr {draft : Draft} (h : Supplies r s c draft)
    (e : t.catalog.templates = s.catalog.templates) : Supplies r t c draft := by
  cases h with
  | specialized ht ha hu => exact .specialized (e ▸ ht) ha hu
  | wrapper h => exact .wrapper h
  | final h ha => exact .final h ha

theorem Supplies.withStack {stack : List Frame} {draft : Draft}
    (h : Supplies r { s with stack } c draft) : Supplies r s c draft := h.congr rfl

theorem Decides.withStack {stack : List Frame} (h : Decides r { s with stack } c d) :
    Decides r s c d := by
  cases h with
  | bind he => exact .bind he.withStack
  | await hd => exact .await (s := s) ⟨hd.declared, hd.unresolved, hd.wanted⟩
  | supply hn hs hr => exact .supply (s := s) hn hs.withStack hr
  | extend hr he => exact .extend hr he
  | fork hn hs => exact .fork hn fun x hx => (hs x hx).withStack
  | restart q => exact .restart q

/-- What working on a claim leads to: a move, a fork for the claim, or the end of the round. -/
theorem moves_of_advance {f : ComponentFrame} {below : List Frame} {cs : List Claim} {p : Progress}
    (hs : s.stack = .component f :: below) (hb : ¬ Frame.ClosesCycle f.source.id below)
    (hf : f.pending = c :: cs) (h : r.advance n round { s with stack := below } f c = .ok p) :
    (∃ t, p = .next t ∧ Move r s t) ∨
      (∃ candidates, p = .fork ⟨c, f.source, candidates⟩ s ∧ c.kind.isSingle = true ∧
        s.declaredMatches c = [] ∧ ∀ d ∈ candidates, Supplies r s c d) ∨
      ∃ request, p = .restart request := by
  obtain ⟨catalog, resolved, index, stack, proxies, forkDepth⟩ := s
  obtain rfl : stack = _ := hs
  unfold advance at h
  split at h <;> rename_i hall
  · cases h
    refine .inl ⟨_, rfl, ?_⟩
    unfold collect
    split
    · next d hd =>
      obtain ⟨hd, hu, hn⟩ := State.mem_of_awaited hd
      exact .await rfl hb hf ⟨hd, hu, .inr ⟨hall, hn⟩⟩
    · next hd => exact .answer rfl hb hf (.every hall hd)
  · split at h <;> rename_i htok
    · cases h
      exact .inl ⟨_, rfl, .answer rfl hb hf (.token htok)⟩
    · have hk : c.kind.isSingle = true := by simp [ClaimKind.isSingle, hall, htok]
      obtain ⟨d, ho, h⟩ := bind_eq_ok.1 h
      have hd :
          Decides r ⟨catalog, resolved, index, .component f :: below, proxies, forkDepth⟩ c d :=
        (decides_of_decide hk ho).withStack
      cases hd with
      | bind he => cases h; exact .inl ⟨_, rfl, .answer rfl hb hf he⟩
      | await hd => cases h; exact .inl ⟨_, rfl, .await rfl hb hf hd⟩
      | supply hn hs hr => cases h; exact .inl ⟨_, rfl, .supply rfl hb hf hn hs hr hk⟩
      | extend hr he => cases h; exact .inl ⟨_, rfl, .extend hr he⟩
      | fork hn hs => cases h; exact .inr (.inl ⟨_, rfl, hk, hn, hs⟩)
      | restart q => cases h; exact .inr (.inr ⟨q, rfl⟩)

/-- The state at a fork: a frame waits with the claim, which only templates can satisfy. -/
structure ForksAt (r : Resolver) (s : State) (f : Fork) : Prop where
  /-- The frame on top waits with the claim, and it closes no cycle. -/
  waiting : ∃ w below cs, s.stack = .component w :: below ∧ w.pending = f.claim :: cs ∧
    w.source = f.requester ∧ ¬ Frame.ClosesCycle w.source.id below
  /-- The claim is on one instance. -/
  single : f.claim.kind.isSingle = true
  /-- No declaration satisfies the claim. -/
  undeclared : s.declaredMatches f.claim = []
  /-- The candidates are specialized templates. -/
  supplied : ∀ d ∈ f.candidates, Supplies r s f.claim d

/-- **Each step of the stack is made of moves**, or leads to a fork and leaves the state as it is;
it ends the run only on an empty stack, with the demand for another round, or in a branch of a fork
with a component that satisfies its claim. -/
theorem leap_of_step {p : Progress} (h : r.step n round goal s = .ok p) :
    (∃ t, (p = .next t ∨ p = .satisfied t ∧ ∃ d, reaches goal d = true) ∧ Leap r s t) ∨
      (∃ f, p = .fork f s ∧ ForksAt r s f) ∨ (∃ request, p = .restart request) ∨
        (p = .finished ∧ s.stack = []) := by
  unfold step at h
  split at h
  · next hs =>
    cases h
    exact .inr (.inr (.inr ⟨rfl, hs⟩))
  · next d below hs =>
    cases h
    refine .inl ⟨_, .inl rfl, ?_⟩
    split
    · next hd => exact (Move.skip hs hd).leap
    · next hd => exact (Move.expand hs (eq_false_of_ne_true hd)).leap
  · next f below hs =>
    obtain ⟨o, ho, h⟩ := bind_eq_ok.1 h
    cases o with
    | some t =>
      cases h
      exact .inl ⟨t, .inl rfl, leap_of_breakCycle hs ho⟩
    | none =>
      have hb := not_closesCycle_of_breakCycle ho
      dsimp only at h
      split at h
      · next hf =>
        cases h
        refine .inl ⟨_, ?_, (Move.commit hs hb hf).leap⟩
        split
        · next hg => exact .inr ⟨rfl, f.source, hg⟩
        · exact .inl rfl
      · next c cs hf =>
        rcases moves_of_advance hs hb hf h with ⟨t, rfl, ht⟩ | ⟨ds, rfl, hk, hn, hd⟩ | ⟨q, rfl⟩
        · exact .inl ⟨t, .inl rfl, ht.leap⟩
        · exact .inr (.inl ⟨_, rfl, ⟨⟨f, below, cs, hs, hf, rfl, hb⟩, hk, hn, hd⟩⟩)
        · exact .inr (.inr (.inl ⟨q, rfl⟩))

theorem leap_of_step_next (h : r.step n round goal s = .ok (.next t)) : Leap r s t := by
  rcases leap_of_step h with ⟨_, h | ⟨h, -⟩, hm⟩ | ⟨_, h, -⟩ | ⟨_, h⟩ | ⟨h, -⟩ <;> cases h
  exact hm

theorem leap_of_step_satisfied (h : r.step n round goal s = .ok (.satisfied t)) : Leap r s t := by
  rcases leap_of_step h with ⟨_, h | ⟨h, -⟩, hm⟩ | ⟨_, h, -⟩ | ⟨_, h⟩ | ⟨h, -⟩ <;> cases h
  exact hm

theorem moves_of_step_next (h : r.step n round goal s = .ok (.next t)) : Moves r s t :=
  (leap_of_step_next h).moves

theorem moves_of_step_satisfied (h : r.step n round goal s = .ok (.satisfied t)) : Moves r s t :=
  (leap_of_step_satisfied h).moves

/-- Only branches of forks are satisfied. -/
theorem goal_of_step_satisfied (h : r.step n round goal s = .ok (.satisfied t)) :
    ∃ d, reaches goal d = true := by
  rcases leap_of_step h with ⟨_, h | ⟨-, hd⟩, -⟩ | ⟨_, h, -⟩ | ⟨_, h⟩ | ⟨h, -⟩
  · cases h
  · exact hd
  all_goals cases h

theorem forksAt_of_step {f : Fork} (h : r.step n round goal s = .ok (.fork f t)) :
    t = s ∧ ForksAt r s f := by
  rcases leap_of_step h with ⟨_, h | ⟨h, -⟩, hm⟩ | ⟨_, h, hf⟩ | ⟨_, h⟩ | ⟨h, -⟩ <;> cases h
  exact ⟨rfl, hf⟩

theorem stack_of_step_finished (h : r.step n round goal s = .ok .finished) : s.stack = [] := by
  rcases leap_of_step h with ⟨_, h | ⟨h, -⟩, hm⟩ | ⟨_, h, hf⟩ | ⟨_, h⟩ | ⟨h, hs⟩ <;> cases h
  exact hs

/-- A branch of a fork is satisfied when a component is finished that satisfies its claim. -/
theorem commit_of_step_satisfied (h : r.step n round goal s = .ok (.satisfied t)) :
    ∃ f below, s.stack = .component f :: below ∧ reaches goal f.source = true ∧
      t = { s with stack := below }.commit f.source f.edges := by
  unfold step at h
  split at h
  · cases h
  · cases h
  · next f below hs =>
    obtain ⟨o, ho, h⟩ := bind_eq_ok.1 h
    cases o with
    | some t => cases h
    | none =>
      dsimp only at h
      split at h
      · refine ⟨f, below, hs, ?_⟩
        split at h
        · next hg =>
          cases h
          exact ⟨hg, rfl⟩
        · cases h
      · next c cs hf =>
        rcases moves_of_advance hs (not_closesCycle_of_breakCycle ho) hf h with
          ⟨t, h, -⟩ | ⟨ds, h, -⟩ | ⟨q, h⟩ <;> cases h

/-- A step leads to a fork, or ends the round, only if that is decided for the claim that is worked
on. -/
theorem decide_of_step {p : Progress} (h : r.step n round goal s = .ok p) :
    p = .finished ∨ (∃ t, p = .next t ∨ p = .satisfied t) ∨
      ∃ f below c cs d, s.stack = .component f :: below ∧ f.pending = c :: cs ∧
        r.decide n round { s with stack := below } f.source c = .ok d ∧
        ((∃ ds t, d = .fork ds ∧ p = .fork ⟨c, f.source, ds⟩ t) ∨
          ∃ request, d = .restart request ∧ p = .restart request) := by
  unfold step at h
  split at h
  · cases h
    exact .inl rfl
  · cases h
    exact .inr (.inl ⟨_, .inl rfl⟩)
  · next f below hs =>
    obtain ⟨o, -, h⟩ := bind_eq_ok.1 h
    cases o with
    | some t =>
      cases h
      exact .inr (.inl ⟨t, .inl rfl⟩)
    | none =>
      dsimp only at h
      split at h
      · refine .inr (.inl ?_)
        split at h <;> cases h
        · exact ⟨_, .inr rfl⟩
        · exact ⟨_, .inl rfl⟩
      · next c cs hf =>
        unfold advance at h
        split at h
        · cases h
          exact .inr (.inl ⟨_, .inl rfl⟩)
        · split at h
          · cases h
            exact .inr (.inl ⟨_, .inl rfl⟩)
          · obtain ⟨d, hd, h⟩ := bind_eq_ok.1 h
            cases d with
            | fork ds =>
              cases h
              exact .inr (.inr ⟨f, below, c, cs, _, hs, hf, hd, .inl ⟨ds, _, rfl, rfl⟩⟩)
            | restart request =>
              cases h
              exact .inr (.inr ⟨f, below, c, cs, _, hs, hf, hd, .inr ⟨request, rfl, rfl⟩⟩)
            | bind | build | retry =>
              cases h
              exact .inr (.inl ⟨_, .inl rfl⟩)

/-- A branch of a fork begins with an instance, which is declared and started. -/
theorem exists_of_openBranch {draft : Draft} {name : String}
    (h : r.openBranch n s draft = .ok (name, t)) :
    ∃ d catalog, s.catalog.registerSource? r.types n draft = some (d, catalog) ∧
      t = { s with catalog, forkDepth := s.forkDepth + 1 }.push d := by
  obtain ⟨⟨d, catalog⟩, hr, h⟩ := bind_eq_ok.1 h
  exact ⟨d, catalog, budgeted_eq_ok.1 hr, (Prod.mk.inj (Except.ok.inj h)).2.symm⟩

/-- A branch of a fork begins with the moves that declare and start its candidate. -/
theorem moves_of_openBranch {f : Fork} {draft : Draft} {name : String} (hf : ForksAt r s f)
    (hd : draft ∈ f.candidates) (h : r.openBranch n s draft = .ok (name, t)) : Moves r s t := by
  obtain ⟨d, catalog, hr, rfl⟩ := exists_of_openBranch h
  obtain ⟨w, below, cs, hs, hw, -, hb⟩ := hf.waiting
  have hm : Move r s ({ s with catalog }.push d) :=
    .supply hs hb hw hf.undeclared (hf.supplied draft hd) hr hf.single
  exact (Relation.ReflTransGen.single hm).tail (.nest (s.forkDepth + 1))

end Resolver

end Wiring
