import Mathlib.Data.Set.Finite.Lattice
import Wiring.Proofs.Resolution.Progress
import Wiring.Proofs.Resolution.Rank
/-!
# Where runs end

What a run comes to next is said by `Resolver.Onward`, and a `Resolver.Way` leads from one state to
another: the states that are reached are those to which a way leads from the start
(`Resolver.reachable_iff`). There are finitely many next states (`Resolver.finite_onward`). So if
from some state no way goes on forever, then finitely many states lie on these ways
(`Resolver.finite_of_acc`), and without extensions each run from there ends
(`Resolver.exists_ends_of_acc`). A run that always comes to something next does not
(`Resolver.outOfFuel_of_onward`).

No way goes on forever if nothing is claimed on it but finitely many claims (`Resolver.Encloses`),
since each next state leaves less to do (`Resolver.Encloses.rank_lt_of_onward`).
-/

namespace Wiring

namespace Resolver

/-- What a run comes to next, with the claim of the innermost fork that is being tried. -/
inductive Onward (r : Resolver) (round : Nat) : Option Claim × State → Option Claim × State → Prop
  /-- A step is made. -/
  | step {n : Nat} {goal : Option Claim} {s t : State}
      (h : r.step n round goal s = .ok (.next t) ∨ r.step n round goal s = .ok (.satisfied t)) :
      Onward r round (goal, s) (goal, t)
  /-- A branch of a fork begins. -/
  | branch {n : Nat} {goal : Option Claim} {s s' t : State} {f : Fork} {draft : Draft}
      {name : String} (h : r.step n round goal s = .ok (.fork f s'))
      (hl : s'.forkDepth < r.settings.maxForkDepth) (hd : draft ∈ f.candidates)
      (hb : r.openBranch n s' draft = .ok (name, t)) : Onward r round (goal, s) (some f.claim, t)
  /-- A fork is left with its only successful branch. -/
  | adopt {n : Nat} {goal : Option Claim} {s s' t : State} {f : Fork} {found : Branches}
      (h : r.step n round goal s = .ok (.fork f s')) (hl : s'.forkDepth < r.settings.maxForkDepth)
      (he : r.explore n (r.run round n (some f.claim)) s' {} f.candidates = .ok (.explored found))
      (ht : found.settle f s' = .ok t) : Onward r round (goal, s) (goal, t)

/-- To come to something next any number of times. -/
abbrev Way (r : Resolver) (round : Nat) : Option Claim × State → Option Claim × State → Prop :=
  Relation.ReflTransGen (r.Onward round)

variable {r : Resolver} {drafts : List Draft} {n m round : Nat} {goal goal' : Option Claim}
  {s t : State} {p q : Option Claim × State} {c : Claim} {K : List Claim} {c₀ : Catalog}

theorem Onward.moves (h : Onward r round p q) : Moves r p.2 q.2 := by
  cases h with
  | step h => exact h.elim moves_of_step_next moves_of_step_satisfied
  | branch h hl hd hb =>
    obtain ⟨rfl, hf⟩ := forksAt_of_step h
    exact moves_of_openBranch hf hd hb
  | adopt h hl he ht =>
    obtain ⟨rfl, hf⟩ := forksAt_of_step h
    exact moves_of_adopt hf (fun _ _ => moves_of_run) he ht

theorem Way.moves (h : Way r round p q) : Moves r p.2 q.2 := by
  induction h with
  | refl => exact .refl
  | tail _ h ih => exact ih.trans h.moves

theorem Reachable.way (hs : Reachable r drafts round goal s)
    (h : Way r round (goal, s) (goal', t)) : Reachable r drafts round goal' t := by
  generalize hq : (goal', t) = q at h
  induction h generalizing goal' t with
  | refl =>
    cases hq
    exact hs
  | tail _ h ih =>
    cases h with
    | step h =>
      cases hq
      exact h.elim (ih rfl).next (ih rfl).satisfied
    | branch h hl hd hb =>
      cases hq
      exact (ih rfl).branch h hl hd hb
    | adopt h hl he ht =>
      cases hq
      exact (ih rfl).adopt h hl he ht

/-- **A state is reached exactly if a way leads to it from the start.** -/
theorem reachable_iff : Reachable r drafts round goal s ↔ ∃ n c, r.declareAll n ∅ drafts = .ok c ∧
    c.roots.isEmpty = false ∧ Way r round (none, .start c) (goal, s) := by
  constructor
  · intro h
    induction h with
    | start hc hr => exact ⟨_, _, hc, hr, .refl⟩
    | next hs h ih =>
      obtain ⟨n, c, hc, hr, hw⟩ := ih
      exact ⟨n, c, hc, hr, hw.tail (.step (.inl h))⟩
    | satisfied hs h ih =>
      obtain ⟨n, c, hc, hr, hw⟩ := ih
      exact ⟨n, c, hc, hr, hw.tail (.step (.inr h))⟩
    | branch hs h hl hd hb ih =>
      obtain ⟨n, c, hc, hr, hw⟩ := ih
      exact ⟨n, c, hc, hr, hw.tail (.branch h hl hd hb)⟩
    | adopt hs h hl he ht ih =>
      obtain ⟨n, c, hc, hr, hw⟩ := ih
      exact ⟨n, c, hc, hr, hw.tail (.adopt h hl he ht)⟩
  · rintro ⟨n, c, hc, hr, hw⟩
    exact (Reachable.start hc hr).way hw

/-! ## Finitely many next states -/

/-- **There are finitely many next states**: a step has one outcome, and a fork has finitely many
branches. -/
theorem finite_onward (p : Option Claim × State) : {q | Onward r round p q}.Finite := by
  by_cases h : ∃ n x, r.step n round p.1 p.2 = .ok x
  · obtain ⟨n, x, hx⟩ := h
    have hunique {m : Nat} {y : Progress} (hy : r.step m round p.1 p.2 = .ok y) : y = x :=
      ok_unique approximates_step hy hx
    cases x with
    | next t | satisfied t =>
      refine (Set.finite_singleton (p.1, t)).subset fun q hq => ?_
      cases hq with
      | step h =>
        rcases h with h | h <;> cases hunique h
        rfl
      | branch h | adopt h => cases hunique h
    | finished | restart request =>
      refine Set.finite_empty.subset fun q hq => ?_
      cases hq with
      | step h => rcases h with h | h <;> cases hunique h
      | branch h | adopt h => cases hunique h
    | fork f s' =>
      let branches (draft : Draft) : Set (Option Claim × State) :=
        {q | ∃ m name b, r.openBranch m s' draft = .ok (name, b) ∧ q = (some f.claim, b)}
      let adopted : Set (Option Claim × State) :=
        {q | ∃ m found t, r.explore m (r.run round m (some f.claim)) s' {} f.candidates =
          .ok (.explored found) ∧ found.settle f s' = .ok t ∧ q = (p.1, t)}
      have hbranches (draft : Draft) : (branches draft).Finite := by
        refine Set.Subsingleton.finite ?_
        rintro _ ⟨m, name, b, hb, rfl⟩ _ ⟨m', name', b', hb', rfl⟩
        obtain ⟨-, rfl⟩ := Prod.mk.inj (ok_unique approximates_openBranch hb hb')
        rfl
      have hadopted : adopted.Finite := by
        refine Set.Subsingleton.finite ?_
        rintro _ ⟨m, found, t, he, ht, rfl⟩ _ ⟨m', found', t', he', ht', rfl⟩
        obtain rfl := Exploration.explored.inj (ok_unique approximates_branches he he')
        rw [Except.ok.inj (ht.symm.trans ht')]
      have hfin : (⋃ draft ∈ {draft | draft ∈ f.candidates}, branches draft).Finite :=
        f.candidates.finite_toSet.biUnion fun draft _ => hbranches draft
      refine (hfin.union hadopted).subset fun q hq => ?_
      cases hq with
      | step h => rcases h with h | h <;> cases hunique h
      | branch h hl hd hb =>
        cases hunique h
        exact .inl (Set.mem_biUnion hd ⟨_, _, _, hb, rfl⟩)
      | adopt h hl he ht =>
        cases hunique h
        exact .inr ⟨_, _, _, he, ht, rfl⟩
  · refine Set.finite_empty.subset fun q hq => h ?_
    cases hq with
    | step hp => exact hp.elim (fun hp => ⟨_, _, hp⟩) fun hp => ⟨_, _, hp⟩
    | branch hp | adopt hp => exact ⟨_, _, hp⟩

/-! ## Ways that do not go on forever -/

/-- **If no way goes on forever, then finitely many states lie on them.** -/
theorem finite_of_acc (h : Acc (fun q p => Onward r round p q) p) :
    {q | Way r round p q}.Finite := by
  induction h with
  | intro p _ ih =>
    have hfin : (⋃ q ∈ {q | Onward r round p q}, {x | Way r round q x}).Finite :=
      (finite_onward p).biUnion fun q hq => ih q hq
    refine (hfin.insert p).subset fun x hx => ?_
    rcases hx.cases_head with rfl | ⟨q, hq, hx⟩
    · exact Set.mem_insert _ _
    · exact .inr (Set.mem_biUnion hq hx)

/-- The branches of a fork can be explored, if the run of each of them ends. -/
theorem halts_explore {found : Branches} {candidates : List Draft} (hf : r.types.Finitary)
    (h : ∀ draft ∈ candidates, ∀ n name b, r.openBranch n s draft = .ok (name, b) →
      ∃ x, Ends r round goal b x) :
    Halts fun n => r.explore n (r.run round n goal) s found candidates := by
  obtain ⟨n, hn⟩ : ∃ n, ∀ draft ∈ candidates, ∃ name b, r.openBranch n s draft = .ok (name, b) ∧
      r.run round n goal b ≠ .error .outOfFuel := by
    refine Universe.exists_budget ?_ fun draft hd => ?_
    · rintro n m draft hn ⟨name, b, ho, hb⟩
      exact ⟨name, b, openBranch_of_le hn ho, fun h => hb (((approximates_run hn).eq hb).trans h)⟩
    · obtain ⟨n, x, hr⟩ := hf.exists_registerSource? s.catalog draft
      have ho : r.openBranch n s draft = .ok (x.1.render, _) :=
        bind_eq_ok.2 ⟨x, budgeted_eq_ok.2 hr, rfl⟩
      obtain ⟨y, hy, m, hm⟩ := h draft hd n _ _ ho
      refine ⟨max n m, _, _, openBranch_of_le (Nat.le_max_left n m) ho, fun h => hy ?_⟩
      exact (run_of_le (Nat.le_max_right n m) hy hm).symm.trans h
  refine ⟨n, fun h => ?_⟩
  obtain ⟨draft, hd, h⟩ := exists_branch_of_explore h
  obtain ⟨name, b, ho, hb⟩ := hn draft hd
  rcases h with h | ⟨name', b', ho', h⟩
  · cases ho.symm.trans h
  · cases ho.symm.trans ho'
    exact hb h

/-- A run that comes to a fork ends, if those from all next states do. -/
theorem exists_ends_of_fork {f : Fork} {s' : State} (hf : r.types.Finitary)
    (hp : r.step n round goal s = .ok (.fork f s'))
    (ih : ∀ q, Onward r round (goal, s) q →
      ∃ x, Ends r round q.1 q.2 x ∧ ∀ q, x ≠ .ok (.restart q)) :
    ∃ x, Ends r round goal s x ∧ ∀ q, x ≠ .ok (.restart q) := by
  by_cases hl : s'.forkDepth < r.settings.maxForkDepth
  · obtain ⟨m, hm⟩ : Halts fun n => r.explore n (r.run round n (some f.claim)) s' {} f.candidates :=
      halts_explore hf fun draft hd k name b hb =>
        (ih _ (.branch (step_of_le (Nat.le_max_left n k) hp) hl hd
          (openBranch_of_le (Nat.le_max_right n k) hb))).imp fun _ hx => hx.1
    have hp := step_of_le (Nat.le_max_left n m) hp
    have heq := (approximates_branches (Nat.le_max_right n m)).eq hm
    cases hx : r.explore (max n m) (r.run round (max n m) (some f.claim)) s' {} f.candidates with
    | error i =>
      refine ⟨.error i, ⟨fun hi => hm (heq.trans (hx.trans ?_)), max n m + 1,
        by simp [run, hp, hl, hx]⟩, by simp⟩
      exact congrArg Except.error (Except.error.inj hi)
    | ok e =>
      cases e with
      | restart q =>
        -- No branch demands another round.
        obtain ⟨draft, hd, name, b, hb, hrun⟩ := exists_branch_of_restart hx
        obtain ⟨y, hy, hq⟩ := ih _ (.branch hp hl hd hb)
        exact absurd (hy.unique ⟨by simp, _, hrun⟩) (hq q)
      | explored found =>
        cases ht : found.settle f s' with
        | error e =>
          exact ⟨.error (.failure e), ⟨by simp, max n m + 1, by simp [run, hp, hl, hx, ht]⟩,
            by simp⟩
        | ok t =>
          obtain ⟨y, hy, hq⟩ := ih _ (.adopt hp hl hx ht)
          exact ⟨y, (ends_iff_of_adopt hp hl hx ht).2 hy, hq⟩
  · exact ⟨.error (.failure _), ⟨by simp, n + 1, by simp [run, hp, hl]; rfl⟩, by simp⟩

/-- **If no way goes on forever, then each run ends**, with a state or an error. -/
theorem exists_ends_of_acc (hf : r.types.Finitary) (hx : r.extensions = [])
    (h : Acc (fun q p => Onward r round p q) p) :
    ∃ x, Ends r round p.1 p.2 x ∧ ∀ q, x ≠ .ok (.restart q) := by
  induction h with
  | intro p _ ih =>
    obtain ⟨goal, s⟩ := p
    obtain ⟨n, hn⟩ : Halts fun n => r.step n round goal s := halts_step hf hx
    cases hp : r.step n round goal s with
    | error i =>
      refine ⟨.error i, ⟨fun hi => hn (hp.trans ?_), n + 1, by simp [run, hp]⟩, by simp⟩
      exact congrArg Except.error (Except.error.inj hi)
    | ok y =>
      rcases progress_of_step hx hp with rfl | ⟨t, rfl | rfl, -⟩ | ⟨-, f, s', rfl⟩
      · exact ⟨.ok (.finished s), ⟨by simp, n + 1, by simp [run, hp]⟩, by simp⟩
      · obtain ⟨x, hends, hq⟩ := ih (goal, t) (.step (.inl hp))
        exact ⟨x, (ends_iff_of_next hp).2 hends, hq⟩
      · exact ⟨.ok (.satisfied t), ⟨by simp, n + 1, by simp [run, hp]⟩, by simp⟩
      · exact exists_ends_of_fork hf hp ih

/-- A run from a state comes, one step later, to what the run from the next state comes to, unless
the budget is too small. -/
theorem approximates_of_onward (h : r.Onward round (none, s) (none, t)) (n : Nat) :
    Approximates (r.run round (n + 1) none s) (r.run round n none t) := by
  cases h with
  | @step m _ _ _ hp =>
    -- Outside forks no claim ends the run.
    have hp := hp.resolve_right fun hp => by
      obtain ⟨d, hd⟩ := goal_of_step_satisfied hp
      cases hd
    have hstep : Approximates (r.step n round none s) (r.step (max n m) round none s) :=
      approximates_step (Nat.le_max_left n m)
    rcases hstep with h | h
    · exact .inl (by simp [run, h])
    · exact .inr (by simp [run, h.trans (step_of_le (Nat.le_max_right n m) hp)])
  | @adopt m _ _ s' _ f found hp hl he ht =>
    have hstep : Approximates (r.step n round none s) (r.step (max n m) round none s) :=
      approximates_step (Nat.le_max_left n m)
    have hbranches : Approximates (r.explore n (r.run round n (some f.claim)) s' {} f.candidates)
        (r.explore (max n m) (r.run round (max n m) (some f.claim)) s' {} f.candidates) :=
      approximates_branches (Nat.le_max_left n m)
    rcases hstep with h | h
    · exact .inl (by simp [run, h])
    · have hp := h.trans (step_of_le (Nat.le_max_right n m) hp)
      rcases hbranches with h | h
      · exact .inl (by simp [run, hp, hl, h])
      · exact .inr (by simp [run, hp, hl, h.trans (explore_of_le (Nat.le_max_right n m) he), ht])

/-- **A run never ends**, if each state of some kind leads to another one. -/
theorem outOfFuel_of_onward {I : State → Prop}
    (hI : ∀ s, I s → ∃ t, r.Onward round (none, s) (none, t) ∧ I t) (hs : I s) (n : Nat) :
    r.run round n none s = .error .outOfFuel := by
  induction n generalizing s with
  | zero => rfl
  | succ n ih =>
    obtain ⟨t, h, ht⟩ := hI s hs
    rcases approximates_of_onward h n with h | h
    · exact h
    · exact h.trans (ih ht)

/-! ## Finitely many claims -/

/-- From the start nothing is claimed but these claims, whatever is tried, and what is declared on
the fly for them is no template. No extension is asked. -/
structure Encloses (r : Resolver) (round : Nat) (c₀ : Catalog) (K : List Claim) : Prop where
  /-- No extension is asked. -/
  extensions : r.extensions = []
  /-- The catalog is that of some drafts. -/
  declared : ∃ drafts, Declared r drafts c₀
  /-- What is declared on the fly is no template. -/
  supplies : ∀ s, Moves r (.start c₀) s → ∀ c ∈ K, ∀ draft, Supplies r s c draft →
    draft.isTemplate = false
  /-- Nothing else is claimed. -/
  pending : ∀ goal s, Way r round (none, .start c₀) (goal, s) → s.Pending (· ∈ K)

namespace Encloses

theorem rank_move (h : Encloses r round c₀ K) (hm : Moves r (.start c₀) s)
    (hp : s.Pending (· ∈ K)) (hst : r.Move s t) :
    t.rank K < s.rank K ∨ t.stack = s.stack ∧ t.rank K ≤ s.rank K := by
  obtain ⟨drafts, hc⟩ := h.declared
  exact State.rank_move hp (h.supplies s hm) h.extensions (hm.identified hc) (hm.passing hc) hst

theorem rank_lt_of_leap (h : Encloses r round c₀ K) (hm : Moves r (.start c₀) s)
    (hp : s.Pending (· ∈ K)) (hl : Leap r s t) (hne : t.stack ≠ s.stack) :
    t.rank K < s.rank K := by
  obtain ⟨s', rfl | ⟨hstack, hs'⟩, ht⟩ := hl
  · exact (h.rank_move hm hp ht).resolve_right fun h => hne h.1
  · -- A proxy was made before.
    have hp' : s'.Pending (· ∈ K) := by
      unfold State.Pending
      rwa [hstack]
    have hle : s'.rank K ≤ s.rank K := (h.rank_move hm hp hs').elim le_of_lt And.right
    have hlt : t.rank K < s'.rank K :=
      (h.rank_move (hm.tail hs') hp' ht).resolve_right fun h => hne (h.1.trans hstack)
    exact hlt.trans_le hle

/-- A step leaves less to do. -/
theorem rank_lt_of_step (h : Encloses r round c₀ K) (hw : Way r round (none, .start c₀) (goal, s))
    (hp : r.step n round goal s = .ok (.next t) ∨ r.step n round goal s = .ok (.satisfied t)) :
    t.rank K < s.rank K := by
  refine h.rank_lt_of_leap hw.moves (h.pending goal s hw)
    (hp.elim leap_of_step_next leap_of_step_satisfied) ?_
  rcases hp with hp | hp
  all_goals
    rcases progress_of_step h.extensions hp with hx | ⟨t', hx | hx, hne⟩ | ⟨-, f, t', hx⟩
    all_goals cases hx
    exact hne

/-- A branch of a fork has less to do. -/
theorem rank_lt_of_branch {f : Fork} {s' b : State} {draft : Draft} {name : String}
    (h : Encloses r round c₀ K) (hw : Way r round (none, .start c₀) (goal, s))
    (hp : r.step n round goal s = .ok (.fork f s')) (hd : draft ∈ f.candidates)
    (hb : r.openBranch n s' draft = .ok (name, b)) : b.rank K < s.rank K := by
  obtain ⟨rfl, hf⟩ := forksAt_of_step hp
  obtain ⟨d, catalog, hr, rfl⟩ := exists_of_openBranch hb
  obtain ⟨w, below, cs, hs, hcs, -, hclose⟩ := hf.waiting
  have hm : r.Move s' ({ s' with catalog }.push d) :=
    .supply hs hclose hcs hf.undeclared (hf.supplied draft hd) hr hf.single
  exact (h.rank_move hw.moves (h.pending goal s' hw) hm).resolve_right fun h =>
    stack_push_ne (s := { s' with catalog }) le_rfl h.1

/-- A fork is left with less to do, if the runs of its branches leave no more to do. -/
theorem rank_lt_of_adopt {f : Fork} {s' : State} {found : Branches} (h : Encloses r round c₀ K)
    (hw : Way r round (none, .start c₀) (goal, s))
    (hp : r.step n round goal s = .ok (.fork f s')) (hl : s'.forkDepth < r.settings.maxForkDepth)
    (hrun : ∀ b e, r.run round n (some f.claim) b = .ok e →
      Way r round (none, .start c₀) (some f.claim, b) →
        ∀ t, e.state? = some t → t.rank K ≤ b.rank K)
    (he : r.explore n (r.run round n (some f.claim)) s' {} f.candidates = .ok (.explored found))
    (ht : found.settle f s' = .ok t) : t.rank K < s.rank K := by
  obtain ⟨draft, hd, name, b, e, x, hb, hrun', hx, rfl⟩ := exists_branch_of_adopt he ht
  have hle : x.rank K ≤ b.rank K := hrun b e hrun' (hw.tail (.branch hp hl hd hb)) x hx
  exact hle.trans_lt (h.rank_lt_of_branch hw hp hd hb)

/-- A run leaves no more to do. -/
theorem rank_le_of_run {e : RunEnd} (h : Encloses r round c₀ K)
    (hw : Way r round (none, .start c₀) (goal, s)) (hrun : r.run round n goal s = .ok e) :
    ∀ t, e.state? = some t → t.rank K ≤ s.rank K := by
  refine run_induction (motive := fun goal s e => Way r round (none, .start c₀) (goal, s) →
    ∀ t, e.state? = some t → t.rank K ≤ s.rank K) ?_ ?_ ?_ ?_ ?_ hrun hw
  · rintro n goal s - hw t ⟨⟩
    exact le_rfl
  · rintro n goal s t hp hw t' ⟨⟩
    exact (h.rank_lt_of_step hw (.inr hp)).le
  · rintro goal s q - t ⟨⟩
  · intro n goal s s' e hp ih hw t ht
    exact (ih (hw.tail (.step (.inl hp))) t ht).trans (h.rank_lt_of_step hw (.inl hp)).le
  · intro n goal s s' s'' f found e hp hl he hb hs ih hw t ht
    exact (ih (hw.tail (.adopt hp hl he hs)) t ht).trans
      (h.rank_lt_of_adopt hw hp hl hb he hs).le

/-- **Each next state leaves less to do.** -/
theorem rank_lt_of_onward (h : Encloses r round c₀ K) (hw : Way r round (none, .start c₀) p)
    (hn : Onward r round p q) : q.2.rank K < p.2.rank K := by
  cases hn with
  | step hp => exact h.rank_lt_of_step hw hp
  | branch hp hl hd hb => exact h.rank_lt_of_branch hw hp hd hb
  | adopt hp hl he ht =>
    exact h.rank_lt_of_adopt hw hp hl (fun b e hrun hb => h.rank_le_of_run hb hrun) he ht

/-- **No way goes on forever.** -/
theorem acc (h : Encloses r round c₀ K) (hw : Way r round (none, .start c₀) p) :
    Acc (fun q p => Onward r round p q) p := by
  induction hk : p.2.rank K using WellFoundedLT.induction generalizing p with
  | ind k ih =>
    exact .intro p fun q hq => ih _ (hk ▸ h.rank_lt_of_onward hw hq) (hw.tail hq) rfl

end Encloses

end Resolver

end Wiring
