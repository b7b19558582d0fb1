import Wiring.Proofs.Resolution.Branches
import Wiring.Proofs.Resolution.Fuel
/-!
# Forks with one survivor

If only one branch of a fork succeeds, then the fork might as well not have been: the round ends as
if there had been no other candidate (`Resolver.survivor_decides`). The branch differs from the run
that declares and starts its candidate directly in three respects, which all leave no trace.

* The branch is one level deeper. A step does not look at the depth (`Resolver.step_atDepth`), and
  a run that does not meet the limit ends in the same way when it begins higher up
  (`Resolver.run_atDepth`).
* The branch stops when its claim is satisfied. A run without a claim goes on from there
  (`Resolver.ends_iff_of_run`).
* The other branches are tried on copies of the state (`Resolver.explore_of_survivor`).
-/

namespace Wiring

/-! ## The depth of forks -/

namespace State

/-- The state at another depth of forks. -/
def atDepth (s : State) (k : Nat) : State := { s with forkDepth := k }

@[simp] theorem forkDepth_atDepth (s : State) (k : Nat) : (s.atDepth k).forkDepth = k := rfl

@[simp] theorem atDepth_forkDepth (s : State) : s.atDepth s.forkDepth = s := rfl

@[simp] theorem stack_atDepth (s : State) (k : Nat) : (s.atDepth k).stack = s.stack := rfl

@[simp] theorem isInProgress_atDepth (s : State) (k id : Nat) :
    (s.atDepth k).isInProgress id = s.isInProgress id := rfl

end State

/-- The same outcome of a step, at another depth. -/
def Progress.atDepth (k : Nat) : Progress → Progress
  | .next s => .next (s.atDepth k)
  | .satisfied s => .satisfied (s.atDepth k)
  | .fork f s => .fork f (s.atDepth k)
  | .restart q => .restart q
  | .finished => .finished

/-- The same end of a run, at another depth. -/
def RunEnd.atDepth (k : Nat) : RunEnd → RunEnd
  | .finished s => .finished (s.atDepth k)
  | .satisfied s => .satisfied (s.atDepth k)
  | .restart q => .restart q

/-- The same branches, at another depth. -/
def Branches.atDepth (k : Nat) (b : Branches) : Branches :=
  { b with successes := b.successes.map fun x => (x.1, x.2.atDepth k) }

/-- The same exploration, at another depth. -/
def Exploration.atDepth (k : Nat) : Exploration → Exploration
  | .explored b => .explored (b.atDepth k)
  | .restart q => .restart q

/-- Whether a limit was met, of the steps or of the depth of forks. -/
def Interrupt.isLimit : Interrupt → Bool
  | .failure (.forkLimit _ _) => true
  | .failure _ => false
  | .outOfFuel => true

theorem Branches.settle_atDepth {b : Branches} {f : Fork} {s : State} (k l : Nat) :
    (b.atDepth l).settle f (s.atDepth k) = (b.settle f s).map (State.atDepth · k) := by
  obtain ⟨successes, failures⟩ := b
  match successes, failures with
  | [x], _ => rfl
  | [], [] => rfl
  | [], e :: es => rfl
  | x :: y :: rest, _ => simp [settle, atDepth, Except.map, Function.comp_def]

namespace Resolver

variable {r : Resolver} {drafts : List Draft} {n m round k : Nat} {goal : Option Claim}
  {s : State} {d q : Source} {c : Claim} {t : TypeExpr} {draft : Draft} {f : Fork}

theorem proxyFor_atDepth : r.proxyFor n (s.atDepth k) d t =
    (r.proxyFor n s d t).map fun x => (x.1, x.2.atDepth k) := by
  unfold proxyFor
  dsimp only [State.atDepth]
  cases s.proxies.lookup (t, d.id) with
  | some i => rfl
  | none => cases s.catalog.registerSource? r.types n (r.proxyDraft d t) <;> rfl

theorem breakCycle_atDepth : r.breakCycle n (s.atDepth k) d =
    (r.breakCycle n s d).map (Option.map (State.atDepth · k)) := by
  unfold breakCycle
  rw [State.stack_atDepth]
  split
  · next w below hs =>
    split
    · next c cs hw =>
      rw [State.isInProgress_atDepth]
      split
      · split
        · rw [proxyFor_atDepth]
          cases r.proxyFor n s d c.type <;> rfl
        · rfl
      · rfl
    · rfl
  · rfl

theorem advance_atDepth {frame : ComponentFrame} : r.advance n round (s.atDepth k) frame c =
    (r.advance n round s frame c).map (Progress.atDepth k) := by
  have hd : r.decide n round (s.atDepth k) frame.source c = r.decide n round s frame.source c := rfl
  unfold advance
  split
  · unfold collect
    have ha : (s.atDepth k).awaited c = s.awaited c := rfl
    rw [ha]
    cases s.awaited c <;> rfl
  · split
    · rfl
    · rw [hd]
      cases r.decide n round s frame.source c with
      | error i => rfl
      | ok decision => cases decision <;> rfl

/-- **A step does not look at the depth of forks.** -/
theorem step_atDepth : r.step n round goal (s.atDepth k) =
    (r.step n round goal s).map (Progress.atDepth k) := by
  unfold step
  rw [State.stack_atDepth]
  split
  · rfl
  · next root below hs =>
    have hr : State.isResolved { s.atDepth k with stack := below } root.id =
      State.isResolved { s with stack := below } root.id := rfl
    dsimp only
    rw [hr]
    split <;> rfl
  · next frame below hs =>
    have hb : r.breakCycle n { s.atDepth k with stack := below } frame.source =
        (r.breakCycle n { s with stack := below } frame.source).map
          (Option.map (State.atDepth · k)) :=
      breakCycle_atDepth (s := { s with stack := below })
    dsimp only
    rw [hb]
    cases r.breakCycle n { s with stack := below } frame.source with
    | error i => rfl
    | ok o =>
      cases o with
      | some t => rfl
      | none =>
        dsimp only [Except.map, Option.map, bind, Except.bind]
        split
        · split <;> rfl
        · exact advance_atDepth (s := { s with stack := below })

theorem forkDepth_of_step_next {s' : State} (h : r.step n round goal s = .ok (.next s')) :
    s'.forkDepth = s.forkDepth := by
  have hs : r.step n round goal (s.atDepth s.forkDepth) =
      (r.step n round goal s).map (Progress.atDepth s.forkDepth) := step_atDepth
  rw [State.atDepth_forkDepth, h] at hs
  have hs : s' = s'.atDepth s.forkDepth := by simpa [Except.map, Progress.atDepth] using hs
  rw [hs, State.forkDepth_atDepth]

/-- No limit broke the computation off. -/
def Unlimited {α : Type} (x : Except Interrupt α) : Prop :=
  ∀ i, x = .error i → i.isLimit = false

theorem openBranch_atDepth : r.openBranch n (s.atDepth k) draft =
    (r.openBranch n s draft).map fun x => (x.1, x.2.atDepth (k + 1)) := by
  unfold openBranch
  dsimp only [State.atDepth]
  cases s.catalog.registerSource? r.types n draft <;> rfl

theorem forkDepth_of_openBranch {name : String} {b : State}
    (h : r.openBranch n s draft = .ok (name, b)) : b.forkDepth = s.forkDepth + 1 := by
  obtain ⟨d, catalog, -, rfl⟩ := exists_of_openBranch h
  rfl

section Explore

variable {runBranch : State → Except Interrupt RunEnd} {found : Branches} {rest : List Draft}
  {name : String} {b t : State}

/-- A branch that ends in a state is a success. -/
theorem explore_of_success {e : RunEnd} (ho : r.openBranch n s draft = .ok (name, b))
    (he : runBranch b = .ok e) (ht : e.state? = some t) :
    r.explore n runBranch s found (draft :: rest) =
      r.explore n runBranch s { found with successes := found.successes ++ [(name, t)] } rest := by
  cases e with
  | restart q => cases ht
  | finished t' | satisfied t' =>
    cases ht
    simp [explore, ho, he, bind, Except.bind]

/-- A branch that leaves a claim unresolved is a failure. -/
theorem explore_of_failure {e : Error} (ho : r.openBranch n s draft = .ok (name, b))
    (he : runBranch b = .error (.failure e)) (hu : e.isUnresolved = true) :
    r.explore n runBranch s found (draft :: rest) =
      r.explore n runBranch s { found with failures := found.failures ++ [e] } rest := by
  simp [explore, ho, he, hu, bind, Except.bind]

/-- A branch that is broken off for another reason breaks off the exploration. -/
theorem explore_of_error {i : Interrupt} (ho : r.openBranch n s draft = .ok (name, b))
    (he : runBranch b = .error i) (hi : ∀ e, i = .failure e → e.isUnresolved = false) :
    r.explore n runBranch s found (draft :: rest) = .error i := by
  cases i with
  | outOfFuel =>
    simp only [explore, ho, he, bind, Except.bind]
    rfl
  | failure e =>
    simp only [explore, ho, he, hi e rfl, bind, Except.bind]
    rfl

/-- A branch that demands another round ends the exploration. -/
theorem explore_of_restart {q : RestartRequest} (ho : r.openBranch n s draft = .ok (name, b))
    (he : runBranch b = .ok (.restart q)) :
    r.explore n runBranch s found (draft :: rest) = .ok (.restart q) := by
  simp only [explore, ho, he, bind, Except.bind]
  rfl

/-- The branches of a fork lead to the same higher up, if their runs do. -/
theorem explore_atDepth {candidates : List Draft} {x : Except Interrupt Exploration}
    (hk : k ≤ s.forkDepth)
    (hb : ∀ b x, k + 1 ≤ b.forkDepth → runBranch b = x → Unlimited x →
      runBranch (b.atDepth (k + 1)) = x.map (RunEnd.atDepth (k + 1)))
    (h : r.explore n runBranch s found candidates = x) (hx : Unlimited x) :
    r.explore n runBranch (s.atDepth k) (found.atDepth (k + 1)) candidates =
      x.map (Exploration.atDepth (k + 1)) := by
  induction candidates generalizing found with
  | nil =>
    subst h
    rfl
  | cons draft rest ih =>
    cases ho : r.openBranch n s draft with
    | error i =>
      subst h
      rw [explore, explore, openBranch_atDepth, ho]
      rfl
    | ok branch =>
      obtain ⟨name, b⟩ := branch
      have ho' : r.openBranch n (s.atDepth k) draft = .ok (name, b.atDepth (k + 1)) := by
        rw [openBranch_atDepth, ho]
        rfl
      have hdepth : k + 1 ≤ b.forkDepth := by
        rw [forkDepth_of_openBranch ho]
        omega
      cases he : runBranch b with
      | error i =>
        by_cases hu : ∃ e, i = .failure e ∧ e.isUnresolved = true
        · obtain ⟨e, rfl, hu⟩ := hu
          have hi : Unlimited (.error (.failure e) : Except Interrupt RunEnd) := by
            rintro i ⟨⟩
            cases e <;> first | rfl | cases hu
          rw [explore_of_failure ho he hu] at h
          rw [explore_of_failure ho' (hb b _ hdepth he hi) hu]
          exact ih h
        · have hu : ∀ e, i = .failure e → e.isUnresolved = false := by simpa using hu
          obtain rfl : .error i = x := (explore_of_error ho he hu).symm.trans h
          have hi : Unlimited (.error i : Except Interrupt RunEnd) := by
            rintro i ⟨⟩
            exact hx _ rfl
          exact explore_of_error ho' (hb b _ hdepth he hi) hu
      | ok e =>
        have he' := hb b _ hdepth he (by rintro i ⟨⟩)
        cases e with
        | restart q =>
          obtain rfl : .ok (.restart q) = x := (explore_of_restart ho he).symm.trans h
          exact explore_of_restart ho' he'
        | finished t | satisfied t =>
          rw [explore_of_success ho he rfl] at h
          rw [explore_of_success ho' he' rfl]
          simpa [Branches.atDepth] using ih h

end Explore

/-- **A run that meets no limit ends in the same way higher up.** -/
theorem run_atDepth {x : Except Interrupt RunEnd} (hk : k ≤ s.forkDepth)
    (h : r.run round n goal s = x) (hx : Unlimited x) :
    r.run round n goal (s.atDepth k) = x.map (RunEnd.atDepth k) := by
  induction n generalizing goal s k x with
  | zero =>
    subst h
    exact absurd (hx _ rfl) (by simp [Interrupt.isLimit])
  | succ n ih =>
    unfold run at h ⊢
    rw [step_atDepth]
    cases hp : r.step n round goal s with
    | error i =>
      simp only [hp] at h
      subst h
      rfl
    | ok p =>
      cases p with
      | finished | satisfied t | restart q =>
        simp only [hp] at h
        subst h
        rfl
      | next t =>
        simp only [hp] at h
        exact ih (by rwa [forkDepth_of_step_next hp]) h hx
      | fork f s' =>
        obtain ⟨rfl, -⟩ := forksAt_of_step hp
        simp only [hp] at h
        split at h <;> rename_i hl
        · have hl' : k < r.settings.maxForkDepth := by omega
          have hlim :
              Unlimited (r.explore n (r.run round n (some f.claim)) s' {} f.candidates) := by
            intro i hi
            simp only [hi] at h
            exact hx i h.symm
          have he : r.explore n (r.run round n (some f.claim)) (s'.atDepth k) {} f.candidates =
              (r.explore n (r.run round n (some f.claim)) s' {} f.candidates).map
                (Exploration.atDepth (k + 1)) :=
            explore_atDepth hk (fun b x hb h hx => ih hb h hx) rfl hlim
          simp only [Except.map, Progress.atDepth, State.forkDepth_atDepth, hl', if_true]
          rw [he]
          cases hexp : r.explore n (r.run round n (some f.claim)) s' {} f.candidates with
          | error i =>
            simp only [hexp] at h
            subst h
            rfl
          | ok exploration =>
            cases exploration with
            | restart q =>
              simp only [hexp] at h
              subst h
              rfl
            | explored found =>
              simp only [hexp] at h
              simp only [Except.map, Exploration.atDepth, Branches.settle_atDepth]
              cases ht : found.settle f s' with
              | error e =>
                simp only [ht] at h
                subst h
                rfl
              | ok t =>
                simp only [ht] at h
                obtain ⟨y, -, rfl⟩ := exists_of_settle ht
                exact ih (s := { y.2 with forkDepth := s'.forkDepth }) hk h hx
        · subst h
          exact absurd (hx _ rfl) (by simp [Interrupt.isLimit])

/-- Outside forks, and only there, no claim is being tried. -/
theorem Reachable.forkDepth_eq_zero_iff (hs : Reachable r drafts round goal s) :
    s.forkDepth = 0 ↔ goal = none := by
  induction hs with
  | start => exact ⟨fun _ => rfl, fun _ => rfl⟩
  | next _ h ih => rw [forkDepth_of_step_next h, ih]
  | satisfied _ h ih =>
    obtain ⟨frame, below, -, -, rfl⟩ := commit_of_step_satisfied h
    exact ih
  | branch _ _ _ _ hb => simp [forkDepth_of_openBranch hb]
  | adopt _ h _ _ ht ih =>
    obtain ⟨rfl, -⟩ := forksAt_of_step h
    obtain ⟨x, -, rfl⟩ := exists_of_settle ht
    exact ih

/-! ## The claim of a branch -/

/-- What a step leads to if no claim ends the run. -/
def proceed : Progress → Progress
  | .satisfied s => .next s
  | p => p

theorem advance_proceed {frame : ComponentFrame} :
    (r.advance n round s frame c).map proceed = r.advance n round s frame c := by
  unfold advance
  split
  · rfl
  · split
    · rfl
    · cases r.decide n round s frame.source c with
      | error i => rfl
      | ok decision => cases decision <;> rfl

/-- **The claim of a branch only says when it stops.** -/
theorem step_none (goal : Option Claim) :
    r.step n round none s = (r.step n round goal s).map proceed := by
  unfold step
  split
  · rfl
  · rfl
  · next frame below hs =>
    dsimp only
    cases r.breakCycle n { s with stack := below } frame.source with
    | error i => rfl
    | ok o =>
      cases o with
      | some t => rfl
      | none =>
        dsimp only [bind, Except.bind]
        split
        · cases reaches goal frame.source <;> rfl
        · exact advance_proceed.symm

/-- **A run without a claim goes on where one with a claim stops.** -/
theorem ends_iff_of_run {e : RunEnd} {t : State} {x : Except Interrupt RunEnd}
    (h : r.run round n goal s = .ok e) (ht : e.state? = some t) :
    Ends r round none s x ↔ Ends r round none t x := by
  refine run_induction (motive := fun _ s e => ∀ t, e.state? = some t →
    (Ends r round none s x ↔ Ends r round none t x)) ?_ ?_ ?_ ?_ ?_ h t ht
  · rintro n goal s - t ⟨⟩
    exact Iff.rfl
  · rintro n goal s t hp t' ⟨⟩
    refine ends_iff_of_next (n := n) ?_
    rw [step_none goal, hp]
    rfl
  · rintro goal s q t ⟨⟩
  · intro n goal s s' e hp ih t ht
    refine (ends_iff_of_next (n := n) ?_).trans (ih t ht)
    rw [step_none goal, hp]
    rfl
  · intro n goal s s' s'' f found e hp hl he _ hs ih t ht
    refine (ends_iff_of_adopt (n := n) ?_ hl he hs).trans (ih t ht)
    rw [step_none goal, hp]
    rfl

/-! ## The other branches -/

section Survivor

variable {pre post : List Draft} {name : String} {b t : State} {catalog : Catalog}

/-- The branch for the draft ends in a state. -/
def BranchSucceeds (r : Resolver) (round : Nat) (f : Fork) (s : State) (draft : Draft) : Prop :=
  ∃ n name b e t, r.openBranch n s draft = .ok (name, b) ∧
    r.run round n (some f.claim) b = .ok e ∧ e.state? = some t

/-- The branch for the draft leaves a claim unresolved. -/
def BranchFails (r : Resolver) (round : Nat) (f : Fork) (s : State) (draft : Draft) : Prop :=
  ∃ n name b e, r.openBranch n s draft = .ok (name, b) ∧
    r.run round n (some f.claim) b = .error (.failure e) ∧ e.isUnresolved = true

theorem branchFails_of_ends {e : Error} (ho : r.openBranch n s draft = .ok (name, b))
    (he : Ends r round (some f.claim) b (.error (.failure e))) (hu : e.isUnresolved = true) :
    BranchFails r round f s draft := by
  obtain ⟨hne, m, hm⟩ := he
  exact ⟨max n m, name, b, e, openBranch_of_le (Nat.le_max_left n m) ho,
    run_of_le (Nat.le_max_right n m) hne hm, hu⟩

/-- With enough steps, all branches that fail do so, and each adds one failure to those found. -/
theorem explore_of_failures (hfail : ∀ x ∈ pre, BranchFails r round f s x) (rest : List Draft) :
    ∃ k, ∀ n, k ≤ n → ∀ found : Branches, ∃ failures,
      r.explore n (r.run round n (some f.claim)) s found (pre ++ rest) =
        r.explore n (r.run round n (some f.claim)) s { found with failures } rest := by
  induction pre with
  | nil => exact ⟨0, fun n _ found => ⟨found.failures, rfl⟩⟩
  | cons draft pre ih =>
    obtain ⟨k, hk⟩ := ih fun x hx => hfail x (List.mem_cons_of_mem _ hx)
    obtain ⟨m, name, b, e, ho, he, hu⟩ := hfail draft List.mem_cons_self
    refine ⟨max k m, fun n hn found => ?_⟩
    have hm : m ≤ n := (Nat.le_max_right k m).trans hn
    obtain ⟨failures, h⟩ := hk n ((Nat.le_max_left k m).trans hn)
      { found with failures := found.failures ++ [e] }
    refine ⟨failures, ?_⟩
    rw [List.cons_append,
      explore_of_failure (openBranch_of_le hm ho) (run_of_le hm (by simp) he) hu, h]

/-- **Failed branches leave no trace**: a fork with one survivor is left with its state. -/
theorem settle_of_survivor {e : RunEnd} (hfail : ∀ x ∈ pre ++ post, BranchFails r round f s x)
    (hc : f.candidates = pre ++ draft :: post) (ho : r.openBranch n s draft = .ok (name, b))
    (he : r.run round n (some f.claim) b = .ok e) (ht : e.state? = some t) :
    ∃ k, ∀ m, k ≤ m → ∃ found,
      r.explore m (r.run round m (some f.claim)) s {} f.candidates = .ok (.explored found) ∧
      found.settle f s = .ok (t.atDepth s.forkDepth) := by
  obtain ⟨k₁, hk₁⟩ := explore_of_failures (fun x hx => hfail x (List.mem_append_left _ hx))
    (draft :: post)
  obtain ⟨k₂, hk₂⟩ := explore_of_failures (fun x hx => hfail x (List.mem_append_right _ hx)) []
  refine ⟨max n (max k₁ k₂), fun m hm => ?_⟩
  have hn : n ≤ m := by omega
  obtain ⟨failures, h₁⟩ := hk₁ m (by omega) {}
  obtain ⟨failures', h₂⟩ := hk₂ m (by omega)
    { successes := [(name, t)], failures }
  rw [List.append_nil] at h₂
  refine ⟨{ successes := [(name, t)], failures := failures' }, ?_, rfl⟩
  rw [hc, h₁, explore_of_success (openBranch_of_le hn ho) (run_of_le hn (by simp) he) ht]
  exact h₂

/-- **A fork with one survivor is as good as none.** If outside forks the branch of one candidate
succeeds, and those of all others leave a claim unresolved, then the round ends as it does from the
state in which just that candidate is declared and started. There must only be leave to fork. -/
theorem survivor_decides (r : Resolver) (drafts : List Draft) (round : Nat) (goal : Option Claim)
    (s s' : State) (n : Nat) (f : Fork) (pre post : List Draft) (draft : Draft)
    (hs : Reachable r drafts round goal s) (h0 : s.forkDepth = 0)
    (hl : 0 < r.settings.maxForkDepth) (h : r.step n round goal s = .ok (.fork f s'))
    (hc : f.candidates = pre ++ draft :: post) (hsucc : BranchSucceeds r round f s draft)
    (hfail : ∀ x ∈ pre ++ post, BranchFails r round f s x) :
    ∃ d catalog, (∃ n, r.buildNew n s draft = .ok (some (.build d catalog))) ∧
      ∀ y, Yields r drafts round y ↔ Concludes r round ({ s with catalog }.push d) y := by
  obtain rfl : goal = none := hs.forkDepth_eq_zero_iff.1 h0
  obtain ⟨rfl, -⟩ := forksAt_of_step h
  obtain ⟨m, name, b, e, t, ho, he, ht⟩ := hsucc
  obtain ⟨k, hk⟩ := settle_of_survivor hfail hc ho he ht
  obtain ⟨found, hexp, hset⟩ := hk (max n k) (Nat.le_max_right n k)
  obtain ⟨⟨d, catalog⟩, hr, ho⟩ := bind_eq_ok.1 ho
  obtain ⟨-, rfl⟩ := Prod.mk.inj (Except.ok.inj ho)
  refine ⟨d, catalog, ⟨m, bind_eq_ok.2 ⟨(d, catalog), hr, rfl⟩⟩, fun y => ?_⟩
  refine hs.yields_iff.trans (concludes_congr fun x => ?_)
  -- Both runs go on from the state in which the branch stops.
  have hfork : Ends r round none s' x ↔ Ends r round none (t.atDepth s'.forkDepth) x :=
    ends_iff_of_adopt (step_of_le (Nat.le_max_left n k) h) (h0.symm ▸ hl) hexp hset
  have hdirect : Ends r round none ({ s' with catalog }.push d) x ↔
      Ends r round none (t.atDepth s'.forkDepth) x := by
    refine ends_iff_of_run (run_atDepth (Nat.le_succ s'.forkDepth) he (by rintro i ⟨⟩)) ?_
    cases e with
    | restart q => cases ht
    | finished t' | satisfied t' =>
      cases ht
      rfl
  exact hfork.trans hdirect.symm

end Survivor

/-! ## The repository that can be built -/

/-- Whether the branch for the draft begins, and its run ends in some way. -/
def branchEnds (r : Resolver) (n round : Nat) (f : Fork) (s : State)
    (P : Except Interrupt RunEnd → Bool) (draft : Draft) : Bool :=
  match r.openBranch n s draft with
  | .ok (_, b) => P (r.run round n (some f.claim) b)
  | .error _ => false

/-- Whether a run ends in a state. -/
def endsInState : Except Interrupt RunEnd → Bool
  | .ok e => e.state?.isSome
  | .error _ => false

/-- Whether a run leaves a claim unresolved. -/
def leavesUnresolved : Except Interrupt RunEnd → Bool
  | .error (.failure e) => e.isUnresolved
  | .error .outOfFuel | .ok _ => false

theorem branchSucceeds_of (h : r.branchEnds n round f s endsInState draft = true) :
    BranchSucceeds r round f s draft := by
  unfold branchEnds at h
  split at h
  · next name b ho =>
    unfold endsInState at h
    split at h
    · next e he =>
      obtain ⟨t, ht⟩ := Option.isSome_iff_exists.1 h
      exact ⟨n, name, b, e, t, ho, he, ht⟩
    · cases h
  · cases h

theorem branchFails_of (h : r.branchEnds n round f s leavesUnresolved draft = true) :
    BranchFails r round f s draft := by
  unfold branchEnds at h
  split at h
  · next name b ho =>
    unfold leavesUnresolved at h
    split at h
    · next e he => exact ⟨n, name, b, e, ho, he, h⟩
    · cases h
    · cases h
  · cases h

/-- Whether there are two candidates, of which the first leaves a claim unresolved and the second
succeeds. -/
def secondSurvives (r : Resolver) (n round : Nat) (f : Fork) (s : State) : Bool :=
  match f.candidates with
  | [x, y] => r.branchEnds n round f s leavesUnresolved x && r.branchEnds n round f s endsInState y
  | _ => false

theorem exists_survivor (h : r.secondSurvives n round f s = true) :
    ∃ x y, f.candidates = [x, y] ∧ BranchFails r round f s x ∧ BranchSucceeds r round f s y := by
  unfold secondSurvives at h
  split at h
  · next x y hc =>
    obtain ⟨hx, hy⟩ := Bool.and_eq_true_iff.1 h
    exact ⟨x, y, hc, branchFails_of hx, branchSucceeds_of hy⟩
  · cases h

/-- If the table needs a connection, which there is none of, then the plan is that with the
repository in memory, as if there were no table. -/
theorem survivor_decides_repositories : ∃ s f table memory d catalog p,
    Reachable repositories (repositoryDrafts [connectionClaim]) 0 none s ∧
    repositories.step 50 0 none s = .ok (.fork f s) ∧ f.candidates = [table, memory] ∧
    (∃ n, repositories.buildNew n s memory = .ok (some (.build d catalog))) ∧
    repositories.resolve 50 (repositoryDrafts [connectionClaim]) 0 = .ok (.resolved p) ∧
    Concludes repositories 0 ({ s with catalog }.push d) (.ok (.resolved p)) := by
  obtain ⟨s, hs, h⟩ := exists_reachable repositories 50 (repositoryDrafts [connectionClaim]) 0 1
    (fun s => repositories.forksTo 50 0 s <| repositories.secondSurvives 50 0)
    (by decide +kernel)
  obtain ⟨f, s', hp, hsurv⟩ := exists_fork h
  obtain ⟨rfl, -⟩ := forksAt_of_step hp
  obtain ⟨table, memory, hc, hfail, hsucc⟩ := exists_survivor hsurv
  obtain ⟨p, hplan, -⟩ := exists_plan
    (x := repositories.resolve 50 (repositoryDrafts [connectionClaim]) 0) (fun _ => true)
    (by decide +kernel)
  obtain ⟨d, catalog, hd, hy⟩ := survivor_decides repositories _ 0 none s' s' 50 f [table] []
    memory hs (hs.forkDepth_eq_zero_iff.2 rfl) (by decide) hp hc hsucc (by simpa using hfail)
  exact ⟨s', f, table, memory, d, catalog, p, hs, hp, hc, hd, hplan, (hy _).1 ⟨by simp, 50, hplan⟩⟩

end Resolver

end Wiring
