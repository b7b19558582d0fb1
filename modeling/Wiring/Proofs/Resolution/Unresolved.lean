import Wiring.Proofs.Resolution.Branches
import Wiring.Proofs.Resolution.Cycles
import Wiring.Proofs.Resolution.Provenance
/-!
# What an unresolved claim means

A claim is reported as unresolved by the component that works on it, and only after each way to
satisfy it led nowhere (`Resolver.Exhausted`). The error may come a long way from there: a fork all
of whose branches fail reports the first error with the others attached to it, and may itself stand
in a branch of another fork. On the way nothing is added but attachments, so what was true where the
error was raised can still be read off it (`Resolver.unresolved_means_exhausted`).

* `Error.Carries`: the errors inside an error, at any depth.
* `State.Rooted`: the outermost component in progress is a root. So the chain of an error leads from
  a root to the component that reports it.
* `Resolver.accounted_of_run`: each error about an unresolved claim was raised in a state of the run
  or of one of its branches.
-/

namespace Wiring

/-! ## Errors inside errors -/

namespace Error

variable {e e' x : Error} {others : List Error}

/-- The error is this one, or attached to it, at any depth. -/
inductive Carries : Error → Error → Prop
  /-- It is this one. -/
  | self (e : Error) : Carries e e
  /-- It is carried by an error attached to it. -/
  | attached {e e' x : Error} (h : e' ∈ e.suppressed) (hx : Carries e' x) : Carries e x

/-- Only errors about unresolved claims carry any. -/
theorem Carries.isUnresolved (h : e.Carries x) (hx : x.isUnresolved = true) :
    e.isUnresolved = true := by
  cases h with
  | self => exact hx
  | attached h => cases e <;> first | rfl | cases h

theorem withSuppressed_append (e : Error) (es es' : List Error) :
    (e.withSuppressed es).withSuppressed es' = e.withSuppressed (es ++ es') := by
  cases e <;> simp [withSuppressed]

end Error

/-! ## Chains begin with roots -/

namespace State

variable {r : Resolver} {s t : State} {d : Source} {f : ComponentFrame} {below : List Frame}

/-- The outermost component in progress is a root, and so is what is still to be looked at. -/
structure Rooted (s : State) : Prop where
  /-- Frames of roots are those of roots. -/
  roots : ∀ d, .root d ∈ s.stack → d ∈ s.catalog.roots
  /-- The outermost component in progress is a root. -/
  outermost : ∀ d, s.inProgress.getLast? = some d → d ∈ s.catalog.roots

theorem inProgress_of_component (hs : s.stack = .component f :: below) :
    s.inProgress = f.source :: below.filterMap Frame.source? := by
  rw [inProgress, hs]
  rfl

theorem inProgress_push (s : State) (d : Source) :
    (s.push d).inProgress = (d :: s.wrapping d).reverse ++ s.inProgress := by
  have hsource : Frame.source? ∘ (fun d => Frame.component (.start d)) = some := rfl
  rw [inProgress, inProgress, stack_push, List.filterMap_append, Frame.started,
    List.filterMap_reverse, List.filterMap_map, hsource, List.filterMap_some]

/-- What is taken from the top of the stack does not matter, nor what is declared. -/
theorem Rooted.of_suffix (h : s.Rooted) (hc : s.catalog.Extends t.catalog)
    (hs : t.stack <:+ s.stack) : t.Rooted := by
  obtain ⟨above, e⟩ := hs
  refine ⟨fun d hd => ?_, fun d hd => ?_⟩
  · exact (hc.sources.filter _).mem (h.roots d (e ▸ List.mem_append_right above hd))
  · have hlast : s.inProgress.getLast? = some d := by
      rw [inProgress] at hd
      rw [inProgress, ← e, List.filterMap_append, List.getLast?_append, hd, Option.some_or]
    exact (hc.sources.filter _).mem (h.outermost d hlast)

/-- A component whose claim is answered is in progress as before. -/
theorem Rooted.answer (h : s.Rooted) (hs : s.stack = .component f :: below) (e : Edge) :
    { s with stack := .component (f.answer e) :: below }.Rooted where
  roots d hd := h.roots d <| by
    rw [hs]
    exact List.mem_cons_of_mem _ ((List.mem_cons.1 hd).resolve_left nofun)
  outermost d hd := h.outermost d <| by
    rw [inProgress_of_component hs]
    rwa [inProgress_of_component rfl] at hd

/-- What is started is a root, or there is something in progress below. -/
theorem Rooted.push (h : s.Rooted) (hd : s.inProgress = [] → d ∈ s.catalog.roots) :
    (s.push d).Rooted where
  roots x hx := by
    rcases mem_push hx with hx | ⟨y, -, hx⟩
    · exact h.roots x hx
    · cases hx
  outermost x hx := by
    rw [inProgress_push, List.getLast?_append] at hx
    cases hl : s.inProgress.getLast? with
    | some y =>
      rw [hl, Option.some_or] at hx
      exact h.outermost x (hl.trans hx)
    | none =>
      rw [hl, Option.none_or, List.getLast?_reverse, List.head?_cons] at hx
      cases hx
      exact hd (List.getLast?_eq_none_iff.1 hl)

/-- **A move keeps the outermost component a root.** -/
theorem Rooted.move (h : s.Rooted) (hm : r.Move s t) : t.Rooted := by
  have hc := hm.grows.catalog
  -- Above a component in progress anything may be started.
  have hstart {s : State} {f : ComponentFrame} {below : List Frame}
      (hs : s.stack = .component f :: below) (d : Source) :
      s.inProgress = [] → d ∈ s.catalog.roots := by
    simp [inProgress_of_component hs]
  cases hm with
  | skip hs hd => exact h.of_suffix hc (hs ▸ List.suffix_cons _ _)
  | @expand d below hs hd =>
    have hbelow : { s with stack := below }.Rooted :=
      h.of_suffix (.refl _) (hs ▸ List.suffix_cons _ _)
    exact hbelow.push fun _ => h.roots d (by simp [hs])
  | forward => exact h.of_suffix hc List.suffix_rfl
  | @bypass f w below c cs i hs hw hf hk ht hp =>
    have hwaiting : { s with stack := .component w :: below }.Rooted :=
      h.of_suffix (.refl _) (hs ▸ List.suffix_cons _ _)
    exact hwaiting.answer rfl _
  | commit hs hb hf => exact h.of_suffix hc (hs ▸ List.suffix_cons _ _)
  | answer hs hb hf he => exact h.answer hs _
  | await hs hb hf hd => exact h.push (hstart hs _)
  | @supply f below c cs n draft d catalog hs hb hf hn hd hr =>
    have hext : { s with catalog }.Rooted := h.of_suffix hc List.suffix_rfl
    exact hext.push (hstart (s := { s with catalog }) hs d)
  | extend hr => exact h.of_suffix hc List.suffix_rfl
  | nest depth => exact h.of_suffix hc List.suffix_rfl

/-- The chain of a state leads to the component that is worked on. -/
theorem chain_of_component (hs : s.stack = .component f :: below) :
    s.chain = { s with stack := below }.chain ++ [f.source.render] := by
  rw [chain, inProgress_of_component hs, List.reverse_cons, List.map_append]
  rfl

/-- **The chain of a state leads from a root to the component that is worked on.** -/
theorem Rooted.exists_root (h : s.Rooted) (hs : s.stack = .component f :: below) :
    (∃ d ∈ s.catalog.roots, s.chain.head? = some d.render) ∧
      s.chain.getLast? = some f.source.render := by
  constructor
  · have hsome : s.inProgress.getLast?.isSome = true := by
      simp [inProgress_of_component hs, List.getLast?_isSome]
    obtain ⟨d, hd⟩ := Option.isSome_iff_exists.1 hsome
    refine ⟨d, h.outermost d hd, ?_⟩
    rw [chain, List.head?_map, List.head?_reverse, hd, Option.map_some]
  · rw [chain_of_component hs, List.getLast?_concat]

end State

namespace Resolver

variable {r : Resolver} {drafts : List Draft} {s s' : State} {c : Claim} {q : Source}
  {n round : Nat} {goal : Option Claim} {f : Fork} {frame : ComponentFrame} {e x : Error}
  {others : List Error} {c₀ : Catalog}

theorem Reachable.tallied (h : Reachable r drafts round goal s) : s.Tallied := by
  obtain ⟨c, -, hm⟩ := h.moves
  exact hm.tallied

/-! ## Where a claim is unresolved -/

/-- Each way to satisfy the claim of the declaration leads nowhere. -/
structure Exhausted (r : Resolver) (round : Nat) (s : State) (q : Source) (c : Claim) : Prop where
  /-- The declaration has the claim. -/
  claimed : c ∈ q.claims
  /-- It is on one instance that must not be absent. -/
  kind : c.kind = .required ∨ c.kind = .valueOf ∨ c.kind = .promiseOf
  /-- No declaration satisfies it, proxies excepted. -/
  undeclared : ∀ d ∈ s.catalog.sources, d.isProxy = false → ¬ d.Fits c
  /-- No template of accepted tags can be specialized for it. -/
  unspecialized : ∀ t ∈ s.catalog.templates, c.tags.Accepts t.tags →
    ¬ r.types.Unifies t.type c.type
  /-- Its type is no optional wrapper. -/
  notOptional : r.types.optionalInner? c.type = none
  /-- Its type has no constructor that gives an instance of accepted tags. -/
  notConstructed : ∀ a, r.types.autoConstructor? c.type = some a → ¬ c.tags.Accepts a.tags
  /-- No extension has an opinion. -/
  noOpinion : ∀ x ∈ r.extensions, x.answer c q.toDeclaration round = .ok .noOpinion

/-- The error is raised in the state by the component that works on the claim there; others may have
been attached to it since. -/
structure Raises (r : Resolver) (round : Nat) (goal : Option Claim) (s : State)
    (frame : ComponentFrame) (c : Claim) (x : Error) : Prop where
  /-- The component is on top of the stack, and the claim is its next one. -/
  works : ∃ below cs, s.stack = .component frame :: below ∧ frame.pending = c :: cs
  /-- The error is raised in the next step, and names the claim, the component and the chain. -/
  raised : ∃ n e others, r.step n round goal s = .error (.failure e) ∧
    e = .unresolved c.render frame.source.render (r.hintsFor s.catalog c) s.chain [] ∧
    x = e.withSuppressed others
  /-- Each way to satisfy the claim leads nowhere. -/
  exhausted : r.Exhausted round s frame.source c
  /-- The chain begins with a root. -/
  root : ∃ d ∈ s.catalog.roots, s.chain.head? = some d.render
  /-- The chain ends with the component. -/
  last : s.chain.getLast? = some frame.source.render

/-- An extension is asked in the state for the claim of the component that works there, and reports
an error that carries this one; others may have been attached to it since. -/
structure Relays (r : Resolver) (round : Nat) (goal : Option Claim) (s : State)
    (frame : ComponentFrame) (c : Claim) (x : Error) : Prop where
  /-- The component is on top of the stack, and the claim is its next one. -/
  works : ∃ below cs, s.stack = .component frame :: below ∧ frame.pending = c :: cs
  /-- The extension answers with the error that breaks off the next step. -/
  relayed : ∃ n e e' others, r.step n round goal s = .error (.failure e) ∧
    (∃ y ∈ r.extensions, y.answer c frame.source.toDeclaration round = .error e) ∧
    e.Carries e' ∧ x = e'.withSuppressed others

/-- The error was raised in a state of a run for the drafts, or an extension reported it there. -/
def Accounted (r : Resolver) (drafts : List Draft) (round : Nat) (x : Error) : Prop :=
  ∃ goal s frame c, Reachable r drafts round goal s ∧
    (Raises r round goal s frame c x ∨ Relays r round goal s frame c x)

/-- Attachments do not matter. -/
theorem Accounted.withSuppressed (h : r.Accounted drafts round x) (others : List Error) :
    r.Accounted drafts round (x.withSuppressed others) := by
  obtain ⟨goal, s, frame, c, hs, h | h⟩ := h
  · obtain ⟨n, e, more, hstep, he, rfl⟩ := h.raised
    refine ⟨goal, s, frame, c, hs, .inl ⟨h.works, ⟨n, e, more ++ others, hstep, he, ?_⟩,
      h.exhausted, h.root, h.last⟩⟩
    exact e.withSuppressed_append more others
  · obtain ⟨n, e, e', more, hstep, ha, hc, rfl⟩ := h.relayed
    refine ⟨goal, s, frame, c, hs, .inr ⟨h.works, n, e, e', more ++ others, hstep, ha, hc, ?_⟩⟩
    exact e'.withSuppressed_append more others

end Resolver

end Wiring
