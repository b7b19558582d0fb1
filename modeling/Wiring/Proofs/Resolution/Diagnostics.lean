import Wiring.Proofs.Resolution.Simulation
/-!
# Limits and hints do not decide what is resolved

Two resolvers may differ in their hints, in what hints they give, and in how many rounds and how
deep forks they allow (`Resolver.SameRules`). If the one that allows fewer forks does not meet its
limit, then a round ends in the same way for both; only the hints that go with unresolved claims
may be others (`Resolver.limits_and_hints_do_not_decide`).

A step does the same to a state for both (`Resolver.agrees_step`). That whole runs then go alike,
with the forks inside them, is a case of `Resolver.Simulates.run`.
-/

namespace Wiring

namespace Resolver

/-! ## Resolvers with the same rules -/

/-- The resolvers have the same types, ask the same extensions and mark proxies in the same way.
They may differ in the hints that they give, and in their limits. -/
structure SameRules (r₁ r₂ : Resolver) : Prop where
  /-- The tables of types are the same. -/
  types : r₁.types = r₂.types
  /-- The extensions are the same. -/
  extensions : r₁.extensions = r₂.extensions
  /-- Proxies carry the same tag. -/
  proxyTag : r₁.settings.proxyTag = r₂.settings.proxyTag

variable {r₁ r₂ : Resolver} {drafts : List Draft} {n round : Nat} {goal : Option Claim} {s : State}
  {q : Source} {c : Claim} {draft : Draft}

theorem SameRules.fromTemplates (h : r₁.SameRules r₂) :
    r₁.fromTemplates n s c = r₂.fromTemplates n s c := by
  simp only [Resolver.fromTemplates, buildNew, h.types]

theorem SameRules.fromNothing (h : r₁.SameRules r₂) :
    r₁.fromNothing n s c = r₂.fromNothing n s c := by
  simp only [Resolver.fromNothing, buildNew, h.types]

theorem SameRules.fromExtensions (h : r₁.SameRules r₂) :
    r₁.fromExtensions n round s q c = r₂.fromExtensions n round s q c := by
  simp only [Resolver.fromExtensions, accept, canSatisfy?, h.types, h.extensions]

theorem SameRules.breakCycle (h : r₁.SameRules r₂) :
    r₁.breakCycle n s q = r₂.breakCycle n s q := by
  simp only [Resolver.breakCycle, proxyFor, proxyDraft, h.types, h.proxyTag]

theorem SameRules.openBranch (h : r₁.SameRules r₂) :
    r₁.openBranch n s draft = r₂.openBranch n s draft := by
  simp only [Resolver.openBranch, h.types]

/-- How a claim is satisfied does not depend on hints; if nothing satisfies it, the error says the
same but for them. -/
theorem agrees_decide (h : r₁.SameRules r₂) :
    Agrees True Eq (r₁.decide n round s q c) (r₂.decide n round s q c) := by
  unfold decide
  rw [h.fromTemplates, h.fromNothing, h.fromExtensions]
  refine agrees_bind _ fun d => ?_
  cases d with
  | some d => exact .refl _
  | none =>
    refine agrees_bind _ fun d => ?_
    cases d with
    | some d => exact .refl _
    | none =>
      refine agrees_bind _ fun d => ?_
      cases d with
      | some d => exact .refl _
      | none =>
        refine agrees_bind _ fun d => ?_
        cases d with
        | some d => exact .refl _
        | none => exact .failure rfl

/-- **A step leads to the same**, whatever hints are given. -/
theorem agrees_step (h : r₁.SameRules r₂) :
    Agrees True Eq (r₁.step n round goal s) (r₂.step n round goal s) := by
  unfold step
  split
  · exact .refl _
  · exact .refl _
  · dsimp only
    rw [h.breakCycle]
    refine agrees_bind _ fun o => ?_
    cases o with
    | some t => exact .refl _
    | none =>
      dsimp only
      split
      · exact .refl _
      · unfold advance
        split
        · exact .refl _
        · split
          · exact .refl _
          · exact (agrees_decide h).bind fun a b hab => hab ▸ .refl _

/-- Two resolvers with the same rules do the same to a state. -/
theorem SameRules.simulates (h : r₁.SameRules r₂)
    (hl : r₁.settings.maxForkDepth ≤ r₂.settings.maxForkDepth) :
    Simulates True r₁ r₂ round Eq where
  step _ _ _ _ hs := hs ▸ (agrees_step h).imp fun p _ _ _ hp => hp ▸ .refl p
  openBranch _ _ _ _ _ hs _ _ := by
    rw [← hs, ← h.openBranch]
    exact (Agrees.refl _).imp fun _ _ _ _ e => e ▸ ⟨rfl, rfl⟩
  leave hs _ := hs ▸ rfl
  forkDepth hs := hs ▸ rfl
  chain hs := hs ▸ rfl
  le := hl
  tolerated _ := trivial

/-- **A run ends in the same way**, unless the resolver that allows fewer forks meets its limit. -/
theorem agrees_run (h : r₁.SameRules r₂)
    (hl : r₁.settings.maxForkDepth ≤ r₂.settings.maxForkDepth) :
    Agrees True Eq (r₁.run round n goal s) (r₂.run round n goal s) :=
  ((h.simulates hl).run n goal rfl).imp fun _ _ _ _ h => h.eq

/-- What two resolvers with the same rules give is the same but for hints, if the limit of forks is
not met. -/
theorem Agrees.mapError_eq {α : Type} {x y : Except Interrupt α} (h : Agrees True Eq x y)
    (hx : ∀ claim limit, x ≠ .error (.failure (.forkLimit claim limit))) :
    x.mapError Interrupt.withoutHints = y.mapError Interrupt.withoutHints := by
  have h := h.mapError_map (f := id) fun _ => hx
  rwa [Except.map_id] at h

/-- **Limits and hints do not decide what is resolved.** For two resolvers with the same rules, of
which the first allows no deeper forks than the second: if the first does not meet its limit of
forks, then both give the same plan, demand the same new round, or fail with the same error but for
the hints in it and in the errors attached to it. -/
theorem limits_and_hints_do_not_decide (r₁ r₂ : Resolver) (drafts : List Draft) (round n : Nat)
    (h : r₁.SameRules r₂) (hl : r₁.settings.maxForkDepth ≤ r₂.settings.maxForkDepth)
    (hx : ∀ claim limit,
      r₁.resolve n drafts round ≠ .error (.failure (.forkLimit claim limit))) :
    (r₁.resolve n drafts round).mapError Interrupt.withoutHints =
      (r₂.resolve n drafts round).mapError Interrupt.withoutHints := by
  refine Agrees.mapError_eq ?_ hx
  unfold resolve
  rw [declareAll_congr h.types]
  refine agrees_bind _ fun catalog => ?_
  split
  · exact .refl _
  · exact (agrees_run h hl).bind fun a b hab => hab ▸ .refl _

/-! ## Repositories that cannot be built -/

/-- Repositories for a resolver that gives no hints and allows no nested forks. -/
def terseRepositories : Resolver :=
  { repositories with settings := { maxForkDepth := 1, hints := { enabled := false } } }

/-- Repositories for a resolver with a hint, and with limits of its own. -/
def helpfulRepositories : Resolver :=
  { repositories with
    hints := [{ type := connectionClaim.type, message := "Plug in the module `pool`." }]
    settings := { maxRounds := 1, maxForkDepth := 4 } }

/-- An application whose repository needs a connection, whether in a table or in memory. -/
def strandedDrafts : List Draft :=
  (repositoryDrafts [connectionClaim]).map fun d =>
    if d.isTemplate then { d with claims := [connectionClaim] } else d

/-- Both resolvers report the claim of a connection in one branch, with that in the other branch
attached. -/
theorem limits_and_hints_do_not_decide_repositories : ∃ e e',
    terseRepositories.resolve 50 strandedDrafts 0 = .error (.failure e) ∧
    helpfulRepositories.resolve 50 strandedDrafts 0 = .error (.failure e') ∧
    e.isUnresolved = true ∧ e.suppressed.length = 1 ∧ e.withoutHints = e'.withoutHints := by
  obtain ⟨e, he, hP⟩ := exists_failure (x := terseRepositories.resolve 50 strandedDrafts 0)
    (fun e => e.isUnresolved && e.suppressed.length == 1) (by decide +kernel)
  obtain ⟨hu, hs⟩ := Bool.and_eq_true_iff.1 hP
  have h := limits_and_hints_do_not_decide terseRepositories helpfulRepositories strandedDrafts 0 50
    ⟨rfl, rfl, rfl⟩ (by decide) (by
      rintro claim limit hx
      obtain rfl := Interrupt.failure.inj (Except.error.inj (he.symm.trans hx))
      cases hu)
  rw [he] at h
  cases hx : helpfulRepositories.resolve 50 strandedDrafts 0 with
  | ok y => simp [hx, Except.mapError] at h
  | error i =>
    cases i with
    | outOfFuel => simp [hx, Except.mapError, Interrupt.withoutHints] at h
    | failure e' =>
      simp only [hx, Except.mapError, Interrupt.withoutHints] at h
      exact ⟨e, e', he, rfl, hu, by simpa using hs,
        Interrupt.failure.inj (Except.error.inj h)⟩

end Resolver

end Wiring
