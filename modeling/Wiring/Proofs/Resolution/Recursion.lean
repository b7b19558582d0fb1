import Wiring.Proofs.Resolution.Course
import Wiring.Proofs.Resolution.Fuel
/-!
# The recursive resolution

To resolve a declaration is to look up its claims one after the other, each until the lookup yields
an edge, and to finish the component then. A lookup that asks for another declaration leads to an
edge as well if that declaration is being resolved already, by breaking the cycle, and else first of
all to the resolution of that declaration, one call deeper (`Resolver.descend`).

The engine has a stack in the place of the calls. Its frames are what the calls hold, the frame on
top that of the innermost call, so that a step of the stack does what the innermost call does next.

* `Resolver.step_eq_lookUp`: it works on a claim as the lookup says.
* `Resolver.step_eq_cycleEdge`: it breaks cycles in the same way.
-/

namespace Wiring

/-! ## The recursive resolution -/

/-- What resolving a declaration leads to. -/
inductive Descent where
  /-- To a finished component. -/
  | done (s : State)
  /-- To the demand for another round. -/
  | restart (request : RestartRequest)

/-- The state with the declarations on a call path as those that are in progress, the innermost
first. Messages show them. -/
def State.along (s : State) (path : List Source) : State :=
  { s with stack := path.map fun d => .component (.start d) }

namespace Resolver

/-- Looks up a claim of a declaration to which a call path leads. -/
def lookUp (r : Resolver) (fuel round : Nat) (path : List Source) (s : State) (d : Source)
    (c : Claim) : Except Interrupt Decision :=
  if c.kind.isAll then
    match s.awaited c with
    | some x => .ok (.build x s.catalog)
    | none => .ok (.bind (.allOf c ((s.resolvedMatches c).map Match.target)))
  else if c.kind = .typeRef then .ok (.bind (.typeToken c))
  else r.decide fuel round (s.along path) d c

/-- The edge for a claim on a declaration on the call path: to a proxy that stands for it. -/
def cycleEdge (r : Resolver) (fuel : Nat) (path : List Source) (s : State) (c : Claim)
    (x : Source) : Except Interrupt (Edge × State) :=
  if c.kind.isSingle && (r.types.kind c.type).isSubstitutable then do
    let (position, s) ← r.proxyFor fuel s x c.type
    return (.single c ⟨position, false⟩, s)
  else .error (.failure (.circular c.render (cycleChain (s.along path) x)))

/-- Goes on as the lookup of the claim of a component says: with its next claim, or with a
declaration that it asks for, after which the claim is looked up again. The candidates of a fork are
not tried. -/
def follow (r : Resolver) (fuel : Nat)
    (call : List Source → State → ComponentFrame → Except Interrupt Descent) (path : List Source)
    (s : State) (f : ComponentFrame) (c : Claim) : Decision → Except Interrupt Descent
  | .bind e => call path s (f.answer e)
  | .retry catalog => call path { s with catalog } f
  | .restart request => .ok (.restart request)
  | .fork _ => .error .outOfFuel
  | .build x catalog =>
    let s := { s with catalog }
    let path' := f.source :: path
    if path'.any (·.id == x.id) then do
      let (e, s) ← r.cycleEdge fuel path' s c x
      call path s (f.answer e)
    else do
      match ← call path' s (.start x) with
      -- What was asked for is finished, and the claim is looked up again.
      | .done s => call path s f
      | .restart request => return .restart request

/-- Satisfies the pending claims of a component and finishes it. -/
def descend (r : Resolver) (round : Nat) :
    (fuel : Nat) → (path : List Source) → State → ComponentFrame → Except Interrupt Descent
  | 0, _, _, _ => .error .outOfFuel
  | fuel + 1, path, s, f =>
    match f.pending with
    | [] => .ok (.done (s.commit f.source f.edges))
    | c :: _ => do
      r.follow fuel (descend r round fuel) path s f c (← r.lookUp fuel round path s f.source c)

/-- Resolves the declarations one after the other, unless they are resolved. -/
def descendAll (r : Resolver) (fuel round : Nat) : State → List Source → Except Interrupt Descent
  | s, [] => .ok (.done s)
  | s, d :: ds => do
    if s.isResolved d.id then descendAll r fuel round s ds
    else
      match ← r.descend round fuel [] s (.start d) with
      | .done s => descendAll r fuel round s ds
      | .restart request => return .restart request

/-- Resolves the roots among the drafts recursively. -/
def resolveRecursively (r : Resolver) (fuel : Nat) (drafts : List Draft) (round : Nat) :
    Except Interrupt Resolution := do
  let catalog ← r.declareAll fuel ∅ drafts
  if catalog.roots.isEmpty then throw (.failure .noRoots)
  match ← r.descendAll fuel round { catalog } catalog.roots with
  | .done s => return .resolved (s.toPlan round)
  | .restart request => return .restart request

variable {r : Resolver} {drafts : List Draft} {n m k round : Nat} {s t : State} {d x : Source}
  {f : ComponentFrame} {c : Claim} {cs : List Claim} {path : List Source} {below : List Frame}
  {call call' : List Source → State → ComponentFrame → Except Interrupt Descent}

theorem follow_of_cycle {catalog : Catalog}
    (hx : (f.source :: path).any (·.id == x.id) = true) :
    r.follow n call path s f c (.build x catalog) =
      (r.cycleEdge n (f.source :: path) { s with catalog } c x >>= fun y =>
        call path y.2 (f.answer y.1)) := if_pos hx

theorem follow_of_call {catalog : Catalog}
    (hx : ¬ (f.source :: path).any (·.id == x.id) = true) :
    r.follow n call path s f c (.build x catalog) =
      (call (f.source :: path) { s with catalog } (.start x) >>= fun
        | .done s => call path s f
        | .restart request => .ok (.restart request)) := by
  rw [follow, if_neg hx]
  rfl

/-! ## More steps change nothing -/

theorem approximates_lookUp (hn : n ≤ m) :
    Approximates (r.lookUp n round path s d c) (r.lookUp m round path s d c) := by
  unfold lookUp
  split
  · exact .refl _
  · split
    · exact .refl _
    · exact approximates_decide hn

theorem approximates_cycleEdge (hn : n ≤ m) :
    Approximates (r.cycleEdge n path s c x) (r.cycleEdge m path s c x) := by
  unfold cycleEdge
  split
  · exact (approximates_proxyFor hn).bind fun _ => .refl _
  · exact .refl _

theorem approximates_follow (hn : n ≤ m) (hc : ∀ path s f, Approximates (call path s f)
    (call' path s f)) (d : Decision) :
    Approximates (r.follow n call path s f c d) (r.follow m call' path s f c d) := by
  cases d with
  | bind e => exact hc _ _ _
  | retry catalog => exact hc _ _ _
  | restart q => exact .refl _
  | fork candidates => exact .refl _
  | build x catalog =>
    unfold follow
    dsimp only
    split
    · exact (approximates_cycleEdge hn).bind fun _ => hc _ _ _
    · refine (hc _ _ _).bind fun y => ?_
      cases y with
      | done s => exact hc _ _ _
      | restart q => exact .refl _

theorem approximates_descend (hn : n ≤ m) :
    Approximates (r.descend round n path s f) (r.descend round m path s f) := by
  induction n generalizing m path s f with
  | zero => exact .inl rfl
  | succ n ih =>
    obtain ⟨m, rfl⟩ : ∃ k, m = k + 1 := ⟨m - 1, by omega⟩
    have hn : n ≤ m := by omega
    unfold descend
    split
    · exact .refl _
    · exact (approximates_lookUp hn).bind (approximates_follow hn fun _ _ _ => ih hn)

theorem approximates_descendAll {ds : List Source} (hn : n ≤ m) :
    Approximates (r.descendAll n round s ds) (r.descendAll m round s ds) := by
  induction ds generalizing s with
  | nil => exact .refl _
  | cons d ds ih =>
    unfold descendAll
    split
    · exact ih
    · refine (approximates_descend hn).bind fun y => ?_
      cases y with
      | done s => exact ih
      | restart q => exact .refl _

/-! ## Steps of the stack -/

/-- What a step leads to that works on a claim of the frame on top as the lookup says. -/
def Decision.progress (s : State) (f : ComponentFrame) (c : Claim) (below : List Frame) :
    Decision → Progress
  | .bind e => .next { s with stack := .component (f.answer e) :: below }
  | .build x catalog => .next ({ s with catalog, stack := .component f :: below }.push x)
  | .retry catalog => .next { s with catalog, stack := .component f :: below }
  | .fork candidates => .fork ⟨c, f.source, candidates⟩ { s with stack := .component f :: below }
  | .restart q => .restart q

theorem inProgress_along : (s.along path).inProgress = path := by
  simp only [State.along, State.inProgress, List.filterMap_map]
  exact List.filterMap_some

/-- Of the stack a decision sees the components that are in progress only. -/
theorem decide_along (h : below.filterMap Frame.source? = path) :
    r.decide n round { s with stack := below } d c = r.decide n round (s.along path) d c := by
  have hc : ({ s with stack := below } : State).chain = (s.along path).chain := by
    rw [State.chain, State.chain, inProgress_along, State.inProgress, h]
  have hu : r.unresolved { s with stack := below } d c = r.unresolved (s.along path) d c := by
    rw [unresolved, unresolved, hc]
    rfl
  unfold decide
  rw [hu]
  rfl

/-- **A step works on a claim as the lookup says.** -/
theorem step_eq_lookUp (hp : below.filterMap Frame.source? = path)
    (hb : f.source.id ∉ Frame.ids below) (hf : f.pending = c :: cs) :
    r.step n round none { s with stack := .component f :: below } =
      (r.lookUp n round path s f.source c).map (Decision.progress s f c below) := by
  have hcyc : ¬ Frame.ClosesCycle f.source.id below := Frame.not_closesCycle hb
  rw [step_eq_advance rfl hcyc hf, advance, lookUp]
  split
  · unfold collect
    have ha : ({ s with stack := below } : State).awaited c = s.awaited c := rfl
    dsimp only
    rw [ha]
    cases s.awaited c <;> rfl
  · split
    · rfl
    · dsimp only
      rw [decide_along hp]
      cases r.decide n round (s.along path) f.source c with
      | error i => rfl
      | ok d => cases d <;> rfl

theorem proxyFor_withStack {claimed : TypeExpr} {stack : List Frame} :
    r.proxyFor n { s with stack } d claimed =
      (r.proxyFor n s d claimed).map fun x => (x.1, { x.2 with stack }) := by
  unfold proxyFor
  dsimp only
  cases s.proxies.lookup (claimed, d.id) with
  | some i => rfl
  | none => cases s.catalog.registerSource? r.types n (r.proxyDraft d claimed) <;> rfl

/-- **A step breaks a cycle as the call does.** -/
theorem step_eq_cycleEdge (hp : below.filterMap Frame.source? = path)
    (hx : (f.source :: path).any (·.id == x.id) = true) (hf : f.pending = c :: cs) :
    r.step n round none { s with stack := .component (.start x) :: .component f :: below } =
      (r.cycleEdge n (f.source :: path) s c x).map fun y =>
        .next { y.2 with stack := .component (f.answer y.1) :: below } := by
  have hin : ({ s with stack := .component f :: below } : State).inProgress = f.source :: path := by
    rw [State.inProgress, List.filterMap_cons, hp]
    rfl
  have hprog : ({ s with stack := .component f :: below } : State).isInProgress x.id = true := by
    rw [State.isInProgress, hin, hx]
  have hchain : cycleChain { s with stack := .component f :: below } x =
      cycleChain (s.along (f.source :: path)) x := by
    rw [cycleChain, cycleChain, hin, inProgress_along]
  unfold step breakCycle cycleEdge
  simp only [ComponentFrame.start, hf, hprog, if_true, hchain]
  split
  · rw [proxyFor_withStack]
    cases r.proxyFor n s x c.type <;> rfl
  · rfl

/-- A component whose claims are all satisfied is finished. -/
theorem step_of_done (hb : f.source.id ∉ Frame.ids below) (hf : f.pending = []) :
    r.step n round none { s with stack := .component f :: below } =
      .ok (.next { s.commit f.source f.edges with stack := below }) := by
  have hcyc : ¬ Frame.ClosesCycle f.source.id below := Frame.not_closesCycle hb
  rw [step_eq_commit rfl hcyc hf]
  rfl

/-- Without interceptors only the component itself is started. -/
theorem push_eq (hi : ∀ i t, ¬ r.types.Intercepts i t) (hs : s.catalog.Sound r.types) :
    s.push d = { s with stack := .component (.start d) :: s.stack } := by
  have hw : s.wrapping d = [] := by
    refine List.filter_eq_nil_iff.2 fun i hm => ?_
    obtain ⟨hm, hsome⟩ := List.mem_filter.1 hm
    rw [(hs.listed i hm).intercepted_eq] at hsome
    obtain ⟨target, ht⟩ := Option.isSome_iff_exists.1 hsome
    exact absurd ⟨target, ht, .refl target⟩ (hi i.type target)
  rw [State.push, hw]
  rfl

/-- The round never comes to a claim on which several templates are to be tried. -/
def NeverForks (r : Resolver) (drafts : List Draft) (round : Nat) : Prop :=
  ∀ n s f t, Reachable r drafts round none s → r.step n round none s ≠ .ok (.fork f t)

/-- One step of the stack, outside forks. -/
def Next (r : Resolver) (round : Nat) (s t : State) : Prop :=
  ∃ n, r.step n round none s = .ok (.next t)

/-- Any number of steps. -/
abbrev Steps (r : Resolver) (round : Nat) : State → State → Prop :=
  Relation.ReflTransGen (r.Next round)

theorem Steps.reachable (h : Steps r round s t) (hs : Reachable r drafts round none s) :
    Reachable r drafts round none t := by
  induction h with
  | refl => exact hs
  | tail _ h ih =>
    obtain ⟨n, h⟩ := h
    exact ih.next h

theorem Steps.ends_iff {y : Except Interrupt RunEnd} (h : Steps r round s t) :
    Ends r round none s y ↔ Ends r round none t y := by
  induction h with
  | refl => exact .rfl
  | tail _ h ih =>
    obtain ⟨n, h⟩ := h
    exact ih.trans (ends_iff_of_next h)

/-- A run that ends makes its first step. -/
theorem exists_step_of_run (hr : r.run round n none s ≠ .error .outOfFuel) :
    ∃ k, r.step k round none s ≠ .error .outOfFuel := by
  cases n with
  | zero => exact absurd rfl hr
  | succ n => exact ⟨n, fun he => hr (by simp [run, he])⟩

/-- A run that ends makes fewer steps after the first one. -/
theorem exists_run_of_next (h : Next r round s t)
    (hr : r.run round n none s ≠ .error .outOfFuel) :
    ∃ m < n, r.run round m none t ≠ .error .outOfFuel := by
  obtain ⟨k, h⟩ := h
  cases n with
  | zero => exact absurd rfl hr
  | succ n =>
    have hn : r.step n round none s = .ok (.next t) := by
      have hne : r.step n round none s ≠ .error .outOfFuel := fun he => hr (by simp [run, he])
      rcases Nat.le_total n k with hk | hk
      · exact ((approximates_step hk).eq hne).trans h
      · exact step_of_le hk h
    exact ⟨n, Nat.lt_succ_self n, by simpa [run, hn] using hr⟩

theorem Steps.exists_run (h : Steps r round s t) (hr : r.run round n none s ≠ .error .outOfFuel) :
    ∃ m ≤ n, r.run round m none t ≠ .error .outOfFuel := by
  induction h with
  | refl => exact ⟨n, Nat.le_refl n, hr⟩
  | tail _ h ih =>
    obtain ⟨m, hm, hr⟩ := ih
    obtain ⟨k, hk, hr⟩ := exists_run_of_next h hr
    exact ⟨k, by omega, hr⟩

end Resolver

end Wiring
