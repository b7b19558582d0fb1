import Wiring.Proofs.Resolution.Branches
import Wiring.Proofs.Resolution.Course
/-!
# What a branch of a fork leaves as it was

A branch works on a copy of the whole state, and if it is the only one that succeeds, its state is
adopted. So the frames of the requester, and of all that waits for it, go through the branch. The
branch does not touch them: it begins with an instance that is new, above which everything else is
put, and it stops when the instance is finished, if not before.

* `State.Extends` says what is kept: frames, finished components, declarations and proxies.
* `Resolver.Occupied.run`: a run that builds what satisfies its claim leaves the frames below.
* `Resolver.branch_extends_state`: each branch that ends in a state extends the state of its fork,
  so positions and identities mean the same after adoption.
-/

namespace Wiring

/-! ## What is kept -/

namespace State

variable {s t : State} {i id : Nat} {n : Node} {x : Declaration} {u : Universe}

/-- The frames of the first state lie at the bottom of the stack, and what was finished, declared
and remembered there still is. -/
structure Extends (s t : State) : Prop where
  /-- All frames are still there, below new ones. -/
  stack : s.stack <:+ t.stack
  /-- Finished components stay where they are. -/
  resolved : s.resolved <+: t.resolved
  /-- Declarations stay where they are. -/
  sources : s.catalog.sources <+: t.catalog.sources
  /-- Templates stay where they are. -/
  templates : s.catalog.templates <+: t.catalog.templates
  /-- Interceptors stay where they are. -/
  interceptors : s.catalog.interceptors <+: t.catalog.interceptors
  /-- Proxies are remembered. -/
  proxies : ∀ key i, s.proxies.lookup key = some i → t.proxies.lookup key = some i

theorem Extends.grows (h : s.Extends t) : s.Grows t := ⟨h.resolved, h.sources, h.templates⟩

/-- An identity is that of the same declaration. -/
theorem Extends.get? (h : s.Extends t) (hs : s.catalog.Sound u) (ht : t.catalog.Sound u)
    (hx : s.catalog.get? id = some x) : t.catalog.get? id = some x := by
  obtain ⟨hx, e⟩ := hs.get?_iff.1 hx
  exact ht.get?_iff.2 ⟨h.grows.catalog.mem_declarations hx, e⟩

end State

namespace Resolver

variable {r : Resolver} {drafts : List Draft} {s t b : State} {c : Claim} {n round : Nat}
  {goal : Option Claim} {f : Fork} {d : Source} {draft : Draft} {name : String}
  {below : List Frame} {e : RunEnd}

theorem Moves.extends (h : Moves r s t) (hs : s.stack <:+ t.stack) : s.Extends t where
  stack := hs
  resolved := h.grows.resolved
  sources := h.grows.catalog.sources
  templates := h.grows.catalog.templates
  interceptors := h.grows.catalog.sources.filter _
  proxies _ _ hk := h.invariant (fun _ _ h hm => hm.lookup h) hk

/-! ## Nothing happens below -/

theorem Occupied.ne_nil (h : Occupied d below s) : s.stack ≠ [] := by
  obtain ⟨above, g, hs, -⟩ := h
  simp [hs]

/-- A step that goes on does not finish what satisfies the claim of the fork. -/
theorem Occupied.step (h : Occupied d below s) (hd : d.id ∉ Frame.ids below)
    (hg : reaches goal d = true) (hp : r.step n round goal s = .ok (.next t)) :
    Occupied d below t := by
  obtain ⟨s', hs', hm⟩ := leap_of_step_next hp
  have hstack : s'.stack = s.stack := by
    rcases hs' with rfl | ⟨hs', -⟩
    · rfl
    · exact hs'
  rcases (h.congr hstack).move_of_fresh hd hm with h | ⟨g, hs, rfl, hg', -⟩
  · exact h
  · rw [step_eq_commit (hstack.symm.trans hs) (Frame.not_closesCycle hd) hg', if_pos hg] at hp
    cases hp

/-- A branch begins with an instance that is new and satisfies the claim of the fork. -/
theorem exists_instance (hi : s.Identified r.types) (hf : ForksAt r s f) (hd : draft ∈ f.candidates)
    (hb : r.openBranch n s draft = .ok (name, b)) :
    ∃ d, reaches (some f.claim) d = true ∧ d.id ∉ Frame.ids s.stack ∧ Occupied d s.stack b := by
  obtain ⟨d, catalog, hr, rfl⟩ := exists_of_openBranch hb
  obtain ⟨-, -, -, hnew⟩ := hi.register hr
  refine ⟨d, by simpa [reaches] using fits_of_registerSource? hf hd hr, hnew, ?_⟩
  exact occupied_push { s with catalog, forkDepth := s.forkDepth + 1 } d

/-- **A run that builds what satisfies its claim leaves the frames below**, and it is satisfied
unless it demands another round. -/
theorem Occupied.run (h : Occupied d below s) (hi : s.Identified r.types)
    (hd : d.id ∉ Frame.ids below) (hg : reaches goal d = true)
    (he : r.run round n goal s = .ok e) :
    (∃ q, e = .restart q) ∨ ∃ t, e = .satisfied t ∧ below <:+ t.stack := by
  refine run_induction (motive := fun goal s e => ∀ d below, s.Identified r.types →
    Occupied d below s → d.id ∉ Frame.ids below → reaches goal d = true →
    (∃ q, e = .restart q) ∨ ∃ t, e = .satisfied t ∧ below <:+ t.stack)
    ?_ ?_ ?_ ?_ ?_ he d below hi h hd hg
  · intro n goal s hp d below hi h
    exact absurd (stack_of_step_finished hp) h.ne_nil
  · intro n goal s t hp d below hi h hd hg
    obtain ⟨g, rest, hs, -, rfl⟩ := commit_of_step_satisfied hp
    refine .inr ⟨_, rfl, ?_⟩
    rcases h.cases_top hs with ⟨-, -, -, rfl⟩ | ⟨above, g', rfl, -⟩
    · exact List.suffix_rfl
    · exact ⟨above ++ [.component g'], by simp [State.commit]⟩
  · exact fun goal s q d below hi h hd hg => .inl ⟨q, rfl⟩
  · intro n goal s t e hp ih d below hi h hd hg
    exact ih d below ((moves_of_step_next hp).identified_of hi) (h.step hd hg hp) hd hg
  · intro n goal s s' t f found e hp hl hx hb ht ih d below hi h hd hg
    obtain ⟨rfl, hf⟩ := forksAt_of_step hp
    have ht' := moves_of_adopt hf (fun _ _ => moves_of_run) hx ht
    refine ih d below (ht'.identified_of hi) ?_ hd hg
    -- The branch that is adopted builds an instance above all frames that are there.
    obtain ⟨draft, hdraft, name, b, e', x, ho, he', hstate, rfl⟩ := exists_branch_of_adopt hx ht
    obtain ⟨d', hg', hnew, hocc⟩ := exists_instance hi hf hdraft ho
    have hib := (moves_of_openBranch hf hdraft ho).identified_of hi
    rcases hb b e' he' d' s'.stack hib hocc hnew hg' with ⟨q, rfl⟩ | ⟨t', rfl, hstack⟩
    · cases hstate
    · cases hstate
      exact h.of_suffix hstack

/-- A branch is satisfied and extends the state of the fork, unless it demands another round. -/
theorem extends_of_branch (hi : s.Identified r.types) (hf : ForksAt r s f)
    (hd : draft ∈ f.candidates) (hb : r.openBranch n s draft = .ok (name, b))
    (he : r.run round n (some f.claim) b = .ok e) :
    (∃ q, e = .restart q) ∨ ∃ t, e = .satisfied t ∧ s.Extends t := by
  obtain ⟨d, hg, hnew, hocc⟩ := exists_instance hi hf hd hb
  have hmoves := moves_of_openBranch hf hd hb
  have hib := hmoves.identified_of hi
  rcases hocc.run hib hnew hg he with h | ⟨t, rfl, hs⟩
  · exact .inl h
  · exact .inr ⟨t, rfl, Moves.extends (hmoves.trans (moves_of_run he t rfl)) hs⟩

/-- **A branch of a fork only extends the state it started from.** In each state of a run that
leads to a fork, the requester waits on top of the stack. Each branch that is run to an end without
the demand for another round is satisfied, and does not end with an empty stack; its state extends
that of the fork. So does the state that is adopted, in which each position is that of the same
component and each identity that of the same declaration. -/
theorem branch_extends_state (r : Resolver) (drafts : List Draft) (round : Nat)
    (goal : Option Claim) (s s' : State) (fuel : Nat) (f : Fork)
    (hs : Reachable r drafts round goal s) (h : r.step fuel round goal s = .ok (.fork f s')) :
    s' = s ∧
    (∃ w below, s.stack = .component w :: below ∧ w.source = f.requester) ∧
    (∀ draft ∈ f.candidates, ∀ name b e, r.openBranch fuel s' draft = .ok (name, b) →
      r.run round fuel (some f.claim) b = .ok e → (∀ q, e ≠ .restart q) →
      ∃ t, e = .satisfied t ∧ s.Extends t) ∧
    ∀ found t,
      r.explore fuel (r.run round fuel (some f.claim)) s' {} f.candidates =
        .ok (.explored found) →
      found.settle f s' = .ok t →
      s.Extends t ∧ t.forkDepth = s.forkDepth ∧
      (∀ (i : Nat) (n : Node), s.resolved[i]? = some n → t.resolved[i]? = some n) ∧
      (∀ id i, s.position? id = some i → t.position? id = some i) ∧
      ∀ id x, s.catalog.get? id = some x → t.catalog.get? id = some x := by
  obtain ⟨rfl, hf⟩ := forksAt_of_step h
  have hi := hs.identified
  have hbranch : ∀ draft ∈ f.candidates, ∀ name b e, r.openBranch fuel s' draft = .ok (name, b) →
      r.run round fuel (some f.claim) b = .ok e → (∀ q, e ≠ .restart q) →
      ∃ t, e = .satisfied t ∧ s'.Extends t := by
    intro draft hd name b e hb he hq
    rcases extends_of_branch hi hf hd hb he with ⟨q, rfl⟩ | ht
    · exact absurd rfl (hq q)
    · exact ht
  obtain ⟨w, below, cs, hw, -, hreq, -⟩ := hf.waiting
  refine ⟨rfl, ⟨w, below, hw, hreq⟩, hbranch, fun found t hx ht => ?_⟩
  have hext : s'.Extends t := by
    obtain ⟨draft, hd, name, b, e, x, ho, he, hstate, rfl⟩ := exists_branch_of_adopt hx ht
    have hq (q : RestartRequest) : e ≠ .restart q := by
      rintro rfl
      cases hstate
    obtain ⟨t, rfl, hext⟩ := hbranch draft hd name b e ho he hq
    cases hstate
    exact ⟨hext.stack, hext.resolved, hext.sources, hext.templates, hext.interceptors,
      hext.proxies⟩
  have hit := (moves_of_adopt hf (fun _ _ => moves_of_run) hx ht).identified_of hi
  obtain ⟨x, -, rfl⟩ := exists_of_settle ht
  exact ⟨hext, rfl, fun i n => hext.grows.getElem?, fun id i => hext.grows.position?,
    fun id x => hext.get? hi.sound hit.sound⟩

/-- Whether a branch for one of the candidates is satisfied. -/
def hasSatisfied (r : Resolver) (n round : Nat) (f : Fork) (s : State) : Bool :=
  f.candidates.any fun draft =>
    match r.openBranch n s draft with
    | .ok (_, b) =>
      match r.run round n (some f.claim) b with
      | .ok (.satisfied _) => true
      | _ => false
    | .error _ => false

theorem exists_satisfied (h : r.hasSatisfied n round f s = true) :
    ∃ draft ∈ f.candidates, ∃ name b t, r.openBranch n s draft = .ok (name, b) ∧
      r.run round n (some f.claim) b = .ok (.satisfied t) := by
  obtain ⟨draft, hd, h⟩ := List.any_eq_true.1 h
  split at h
  · next name b hb =>
    split at h
    · next t ht => exact ⟨draft, hd, name, b, t, hb, ht⟩
    · cases h
  · cases h

/-- The application is still at the bottom of the stack when its repository is built. -/
theorem branch_extends_state_repositories : ∃ s f draft name b t,
    Reachable repositories (repositoryDrafts [connectionClaim]) 0 none s ∧
    repositories.step 50 0 none s = .ok (.fork f s) ∧ draft ∈ f.candidates ∧
    repositories.openBranch 50 s draft = .ok (name, b) ∧
    repositories.run 0 50 (some f.claim) b = .ok (.satisfied t) ∧ s.Extends t := by
  obtain ⟨s, hs, h⟩ := exists_reachable repositories 50 (repositoryDrafts [connectionClaim]) 0 1
    (fun s => repositories.forksTo 50 0 s <| repositories.hasSatisfied 50 0) (by decide +kernel)
  obtain ⟨f, s', hp, h⟩ := exists_fork h
  obtain ⟨draft, hd, name, b, t, hb, ht⟩ := exists_satisfied h
  obtain ⟨rfl, -, hbranch, -⟩ :=
    branch_extends_state repositories _ 0 none s s' 50 f hs hp
  obtain ⟨t', e, hext⟩ := hbranch draft hd name b _ hb ht fun q => nofun
  cases e
  exact ⟨s', f, draft, name, b, t, hs, hp, hd, hb, ht, hext⟩

end Resolver

end Wiring
