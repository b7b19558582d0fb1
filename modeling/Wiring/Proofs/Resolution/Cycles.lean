import Wiring.Proofs.Resolution.Faults
import Wiring.Proofs.Resolution.Runs
/-!
# Where cycles are reported

A resolution reports a cycle only in a state in which one is closed: the component that is worked
on is in progress below as well, and the one right below waits with a claim
(`Resolver.closesCycle_of_resolve`). No look-up, no specialization and no fork reports any: what
breaks these off is the fault of a single claim or draft (`Interrupt.isLocal`).

Extensions report what they like. If they report nothing, all that can break off a round is known
(`Resolver.closesCycle_of_resolve_error`).
-/

namespace Wiring

/-- Whether a single claim or draft is to blame, or the budget. No look-up, no specialization and no
declaration breaks off a resolution in another way. -/
def Interrupt.isLocal : Interrupt → Bool
  | .failure (.ambiguous _ _ _) | .failure (.unresolved _ _ _ _ _)
  | .failure (.invalidDeclaration _ _) | .outOfFuel => true
  | .failure _ => false

theorem Interrupt.isLocal_of_isFault {i : Interrupt} (h : i.isFault = true) : i.isLocal = true := by
  cases i with
  | outOfFuel => rfl
  | failure e => cases e <;> first | rfl | cases h

theorem Interrupt.isLocal_eq_false {i : Interrupt} (h : i.isCircular = true) :
    i.isLocal = false := by
  cases i with
  | outOfFuel => cases h
  | failure e => cases e <;> first | rfl | cases h

/-- A round that is tried and reports a cycle reports some. -/
theorem exists_circular {α : Type} {x : Except Interrupt α}
    (h : (match x with
      | .error i => i.isCircular
      | .ok _ => false) = true) : ∃ claim chain, x = .error (.failure (.circular claim chain)) := by
  match x, h with
  | .error (.failure (.circular claim chain)), _ => exact ⟨claim, chain, rfl⟩

namespace Resolver

variable {r : Resolver} {drafts : List Draft} {s : State} {c : Claim} {q : Source} {i : Interrupt}
  {n round : Nat} {goal : Option Claim} {f : Fork}

/-! ## What reports no cycle -/

/-- No extension fails. -/
def Reliable (r : Resolver) : Prop := ∀ e ∈ r.extensions, ∀ c d k i, e.answer c d k ≠ .error i

theorem reliable_of_nil (h : r.extensions = []) : r.Reliable := by
  simp [Reliable, h]

theorem isFault_of_declareAll {catalog : Catalog}
    (h : r.declareAll n catalog drafts = .error i) : i.isFault = true := by
  induction drafts generalizing catalog with
  | nil => cases h
  | cons d drafts ih =>
    rcases bind_eq_error.1 h with h | ⟨-, -, h⟩
    · exact isFault_of_validate h
    · rcases bind_eq_error.1 h with h | ⟨x, -, h⟩
      · exact isFault_of_budgeted h
      · exact ih h

/-- Unless an extension fails, what breaks off a claim on one instance is local to it. -/
theorem isLocal_of_fails (hx : r.Reliable) (h : Fails r n round s q c i) : i.isLocal = true := by
  cases h with
  | fault h => exact Interrupt.isLocal_of_isFault h
  | extension hx' h => exact absurd h (hx _ hx' _ _ _ _)
  | exhausted => rfl

theorem closesCycle_of_step (hx : r.Reliable) (h : r.step n round goal s = .error i)
    (hi : i.isLocal = false) : i.isCircular = true ∧ ClosesCycle s := by
  rcases fails_of_step h with rfl | h | ⟨f, below, c, cs, -, -, -, h⟩
  · cases hi
  · exact h
  · simp [isLocal_of_fails hx h] at hi

/-! ## Forks -/

/-- A failure is one from before, or that of the branch of a candidate, which leaves some claim
unresolved. -/
theorem exists_branch_of_failure {runBranch : State → Except Interrupt RunEnd}
    {found found' : Branches} {candidates : List Draft}
    (h : r.explore n runBranch s found candidates = .ok (.explored found')) :
    ∀ e ∈ found'.failures, e ∈ found.failures ∨ ∃ draft ∈ candidates, ∃ name b,
      r.openBranch n s draft = .ok (name, b) ∧ runBranch b = .error (.failure e) ∧
      e.isUnresolved = true := by
  induction candidates generalizing found with
  | nil =>
    cases h
    exact fun e he => .inl he
  | cons draft rest ih =>
    have hrest {e : Error} (h : ∃ d ∈ rest, ∃ name b, r.openBranch n s d = .ok (name, b) ∧
        runBranch b = .error (.failure e) ∧ e.isUnresolved = true) :
        ∃ d ∈ draft :: rest, ∃ name b, r.openBranch n s d = .ok (name, b) ∧
          runBranch b = .error (.failure e) ∧ e.isUnresolved = true := by
      obtain ⟨d, hd, h⟩ := h
      exact ⟨d, List.mem_cons_of_mem _ hd, h⟩
    obtain ⟨⟨name, b⟩, ho, h⟩ := bind_eq_ok.1 h
    dsimp only at h
    split at h
    · cases h
    · exact fun e he => (ih h e he).imp_right hrest
    · exact fun e he => (ih h e he).imp_right hrest
    · next e' hb =>
      split at h
      · next hu =>
        intro e he
        rcases ih h e he with he | he
        · refine (List.mem_append.1 he).imp_right fun he => ?_
          rw [List.mem_singleton.1 he]
          exact ⟨draft, List.mem_cons_self, name, b, ho, hb, hu⟩
        · exact .inr (hrest he)
      · cases h
    · cases h

/-- Branches that fail leave a claim unresolved. -/
theorem isUnresolved_of_explore {runBranch : State → Except Interrupt RunEnd} {found : Branches}
    {candidates : List Draft}
    (h : r.explore n runBranch s {} candidates = .ok (.explored found)) :
    ∀ e ∈ found.failures, e.isUnresolved = true := by
  intro e he
  rcases exists_branch_of_failure h e he with he | ⟨-, -, -, -, -, -, hu⟩
  · cases he
  · exact hu

/-- A fork that is left without a branch is the fault of its claim. -/
theorem isLocal_of_fork_settle {found : Branches} {e : Error}
    (hf : ∀ e ∈ found.failures, e.isUnresolved = true) (h : found.settle f s = .error e) :
    (Interrupt.failure e).isLocal = true := by
  unfold Branches.settle at h
  split at h
  · cases h
  · split at h
    · next first others hfirst =>
      have hu := hf first (by simp [hfirst])
      cases h
      cases first <;> first | rfl | cases hu
    · cases h
      rfl
  · cases h
    rfl

/-- What breaks off the exploration of a fork breaks off a branch, or the beginning of one. -/
theorem exists_branch_of_explore {runBranch : State → Except Interrupt RunEnd} {found : Branches}
    {candidates : List Draft} (h : r.explore n runBranch s found candidates = .error i) :
    ∃ draft ∈ candidates, r.openBranch n s draft = .error i ∨ ∃ name b,
      r.openBranch n s draft = .ok (name, b) ∧ runBranch b = .error i := by
  induction candidates generalizing found with
  | nil => cases h
  | cons draft rest ih =>
    have hrest {found : Branches} (h : r.explore n runBranch s found rest = .error i) :
        ∃ d ∈ draft :: rest, r.openBranch n s d = .error i ∨ ∃ name b,
          r.openBranch n s d = .ok (name, b) ∧ runBranch b = .error i := by
      obtain ⟨d, hd, h⟩ := ih h
      exact ⟨d, List.mem_cons_of_mem _ hd, h⟩
    rcases bind_eq_error.1 h with h | ⟨⟨name, b⟩, ho, h⟩
    · exact ⟨draft, List.mem_cons_self, .inl h⟩
    · dsimp only at h
      split at h
      · cases h
      · exact hrest h
      · exact hrest h
      · next e he =>
        split at h
        · exact hrest h
        · cases h
          exact ⟨draft, List.mem_cons_self, .inr ⟨name, b, ho, he⟩⟩
      · next he =>
        cases h
        exact ⟨draft, List.mem_cons_self, .inr ⟨name, b, ho, he⟩⟩

/-! ## Runs -/

/-- **What breaks off a run**, if it is not local: a cycle that is closed in some state, or forks
that are nested too deeply. -/
theorem closesCycle_of_run (hx : r.Reliable) (hs : Reachable r drafts round goal s)
    (h : r.run round n goal s = .error i) (hi : i.isLocal = false) :
    (i.isCircular = true ∧ ∃ goal' t, Reachable r drafts round goal' t ∧ ClosesCycle t) ∨
      ∃ claim k, i = .failure (.forkLimit claim k) := by
  induction n generalizing goal s with
  | zero =>
    cases h
    cases hi
  | succ n ih =>
    unfold run at h
    split at h
    · next e hp =>
      cases h
      obtain ⟨hc, hcycle⟩ := closesCycle_of_step hx hp hi
      exact .inl ⟨hc, goal, s, hs, hcycle⟩
    · cases h
    · cases h
    · cases h
    · next t hp => exact ih (hs.next hp) h
    · next f s' hp =>
      split at h
      · next hl =>
        split at h
        · next e he =>
          cases h
          obtain ⟨draft, hd, ho | ⟨name, b, ho, hb⟩⟩ := exists_branch_of_explore he
          · simp [Interrupt.isLocal_of_isFault (isFault_of_openBranch ho)] at hi
          exact ih (hs.branch hp hl hd ho) hb
        · cases h
        · next found he =>
          split at h
          · next t ht => exact ih (hs.adopt hp hl he ht) h
          · next e hset =>
            cases h
            simp [isLocal_of_fork_settle (isUnresolved_of_explore he) hset] at hi
      · cases h
        exact .inr ⟨_, _, rfl⟩

/-- **What breaks off a round**, unless an extension fails: something local, a cycle that is closed
in some state of its run, forks that are nested too deeply, or that there are no roots. -/
theorem closesCycle_of_resolve_error (hx : r.Reliable)
    (h : r.resolve n drafts round = .error i) (hi : i.isLocal = false) :
    (i.isCircular = true ∧ ∃ goal t, Reachable r drafts round goal t ∧ ClosesCycle t) ∨
      (∃ claim k, i = .failure (.forkLimit claim k)) ∨ i = .failure .noRoots := by
  rcases bind_eq_error.1 h with h | ⟨c, hc, h⟩
  · simp [Interrupt.isLocal_of_isFault (isFault_of_declareAll h)] at hi
  · split at h <;> rename_i hr
    · cases h
      exact .inr (.inr rfl)
    · rcases bind_eq_error.1 h with h | ⟨e, -, h⟩
      · exact (closesCycle_of_run hx (.start hc (by simpa using hr)) h hi).imp_right .inl
      · cases e <;> cases h

/-- **A round reports a cycle only if one is closed in some state of its run.** -/
theorem closesCycle_of_resolve (hx : r.extensions = [])
    (h : r.resolve n drafts round = .error i) (hi : i.isCircular = true) :
    ∃ goal t, Reachable r drafts round goal t ∧ ClosesCycle t := by
  rcases closesCycle_of_resolve_error (reliable_of_nil hx) h (Interrupt.isLocal_eq_false hi) with
    ⟨-, h⟩ | ⟨_, _, rfl⟩ | rfl
  · exact h
  · cases hi
  · cases hi

end Resolver

end Wiring
