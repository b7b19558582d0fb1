import Wiring.Proofs.Declaration
import Wiring.Proofs.Resolution.Moves
import Wiring.Resolution.Round
/-!
# The states of a run

A state is `Resolver.Reachable` if a run of the engine passes through it, in a branch of a fork or
outside; a round of some drafts `Resolver.Completes` in a state if its run empties the stack there,
and then the plan of that state is its result (`Resolver.resolve_eq_resolved_iff`).

Each such state is reached by moves from the one in which the drafts are declared and the roots
are on the stack (`Resolver.Reachable.moves`): a branch that succeeds is a piece of the way, and
those that fail leave no trace. So what holds at the start and is kept by moves holds in all states
of all runs (`Resolver.Moves.invariant`).

What is known of the start is said by `Resolver.Declared`: the catalog is sound, and its
declarations are those of the drafts, the `k`-th under the identity `k`.
-/

namespace Wiring

/-! ## The catalog of the drafts -/

/-- The declarations of the drafts, each under the identity that is its position. -/
def Draft.declareEach (drafts : List Draft) : List Declaration :=
  drafts.mapIdx fun k d => d.declare k

theorem Draft.mem_declareEach {drafts : List Draft} {x : Declaration} :
    x ∈ Draft.declareEach drafts ↔
      ∃ (k : Nat) (d : Draft), drafts[k]? = some d ∧ x = d.declare k := by
  rw [declareEach, List.mem_mapIdx]
  constructor
  · rintro ⟨k, hk, rfl⟩
    exact ⟨k, drafts[k], List.getElem?_eq_getElem hk, rfl⟩
  · rintro ⟨k, d, hd, rfl⟩
    obtain ⟨hk, rfl⟩ := List.getElem?_eq_some_iff.1 hd
    exact ⟨k, hk, rfl⟩

/-- The state in which a run ends. -/
def RunEnd.state? : RunEnd → Option State
  | .finished s | .satisfied s => some s
  | .restart _ => none

namespace Resolver

variable {r : Resolver} {drafts : List Draft} {n m round : Nat} {goal : Option Claim}
  {c c' : Catalog} {s t : State} {f : Fork}

/-- The catalog holds the drafts, and nothing else. -/
structure Declared (r : Resolver) (drafts : List Draft) (c : Catalog) : Prop where
  /-- It is sound. -/
  sound : c.Sound r.types
  /-- The next identity is the number of drafts. -/
  nextId : c.nextId = drafts.length
  /-- Templates are the templates among the drafts. -/
  templates : c.templates = (Draft.declareEach drafts).filter fun d => d.isTemplate
  /-- Sources are the other drafts. -/
  sources : c.sources.map Source.toDeclaration =
    (Draft.declareEach drafts).filter fun d => !d.isTemplate

theorem declared_nil (r : Resolver) : Declared r [] ∅ where
  sound := Catalog.sound_empty _
  nextId := rfl
  templates := rfl
  sources := rfl

theorem Declared.concat {d : Draft} (h : Declared r drafts c) (ha : c.Added r.types d c') :
    Declared r (drafts ++ [d]) c' := by
  have he : c.declare d = d.declare drafts.length := by rw [Catalog.declare, h.nextId]
  have hl : Draft.declareEach (drafts ++ [d]) = Draft.declareEach drafts ++ [c.declare d] := by
    rw [he, Draft.declareEach, List.mapIdx_concat]
    rfl
  refine ⟨ha.sound h.sound, ?_, ?_, ?_⟩
  · rw [ha.nextId, h.nextId, List.length_append, List.length_singleton]
  · rw [hl, List.filter_append, ← h.templates]
    cases ha with
    | template ht => simp [Catalog.addTemplate, ht]
    | source ht hs e => simp [Catalog.addSource, ht]
  · rw [hl, List.filter_append, ← h.sources]
    cases ha with
    | template ht => simp [Catalog.addTemplate, ht]
    | source ht hs e => simp [Catalog.addSource, ht, e]

/-- What is declared depends on the table of types only. -/
theorem declareAll_congr {r' : Resolver} (ht : r.types = r'.types) :
    r.declareAll n c drafts = r'.declareAll n c drafts := by
  induction drafts generalizing c with
  | nil => rfl
  | cons d drafts ih => simp only [declareAll, ht, ih]

/-- **Declaring drafts one after the other** gives a sound catalog that holds them. -/
theorem declared_of_declareAll {later : List Draft} (h : Declared r drafts c)
    (hc : r.declareAll n c later = .ok c') : Declared r (drafts ++ later) c' := by
  induction later generalizing c drafts with
  | nil =>
    cases hc
    simpa using h
  | cons d later ih =>
    obtain ⟨-, -, hc⟩ := bind_eq_ok.1 hc
    obtain ⟨⟨x, c₁⟩, hx, hc⟩ := bind_eq_ok.1 hc
    have ha := (Catalog.added_of_register? (budgeted_eq_ok.1 hx)).2
    simpa using ih (h.concat ha) hc

/-- What is declared is valid. -/
theorem validate_of_declareAll (h : r.declareAll n c drafts = .ok c') :
    ∀ d ∈ drafts, d.validate = .ok () := by
  induction drafts generalizing c with
  | nil => simp
  | cons d drafts ih =>
    obtain ⟨u, hv, h⟩ := bind_eq_ok.1 h
    obtain ⟨x, -, h⟩ := bind_eq_ok.1 h
    intro y hy
    rcases List.mem_cons.1 hy with rfl | hy
    · exact checked_eq_ok.1 hv
    · exact ih h y hy

theorem Declared.mem_templates {d : Draft} {k : Nat} (h : Declared r drafts c)
    (hd : drafts[k]? = some d) (ht : d.isTemplate = true) : d.declare k ∈ c.templates := by
  rw [h.templates, List.mem_filter, Draft.mem_declareEach]
  exact ⟨⟨k, d, hd, rfl⟩, (d.isTemplate_declare k).trans ht⟩

theorem Declared.templates_eq_nil (h : Declared r drafts c)
    (hd : ∀ d ∈ drafts, d.isTemplate = false) : c.templates = [] := by
  rw [h.templates, List.filter_eq_nil_iff]
  intro x hx
  obtain ⟨k, d, hk, rfl⟩ := Draft.mem_declareEach.1 hx
  rw [d.isTemplate_declare k, hd d (List.mem_of_getElem? hk)]
  exact Bool.false_ne_true

theorem Declared.exists_source {d : Draft} {k : Nat} (h : Declared r drafts c)
    (hd : drafts[k]? = some d) (ht : d.isTemplate = false) :
    ∃ x ∈ c.sources, x.toDeclaration = d.declare k := by
  have hm : d.declare k ∈ c.sources.map Source.toDeclaration := by
    rw [h.sources, List.mem_filter, Draft.mem_declareEach]
    refine ⟨⟨k, d, hd, rfl⟩, ?_⟩
    rw [d.isTemplate_declare k, ht]
    rfl
  exact List.mem_map.1 hm

theorem Declared.exists_draft {x : Source} (h : Declared r drafts c) (hx : x ∈ c.sources) :
    ∃ (k : Nat) (d : Draft), drafts[k]? = some d ∧ x.toDeclaration = d.declare k := by
  have hm := List.mem_map_of_mem (f := Source.toDeclaration) hx
  rw [h.sources] at hm
  exact Draft.mem_declareEach.1 (List.mem_of_mem_filter hm)

/-! ## Runs -/

/-- A state through which a run for the drafts passes, with the claim of the innermost fork that is
being tried there. -/
inductive Reachable (r : Resolver) (drafts : List Draft) (round : Nat) : Option Claim → State → Prop
  /-- The drafts are declared, and the roots are on the stack. -/
  | start {n : Nat} {c : Catalog} (hc : r.declareAll n ∅ drafts = .ok c)
      (hr : c.roots.isEmpty = false) : Reachable r drafts round none (.start c)
  /-- A step is made. -/
  | next {n : Nat} {goal : Option Claim} {s t : State} (hs : Reachable r drafts round goal s)
      (h : r.step n round goal s = .ok (.next t)) : Reachable r drafts round goal t
  /-- A step is made that satisfies the claim of the fork. -/
  | satisfied {n : Nat} {goal : Option Claim} {s t : State} (hs : Reachable r drafts round goal s)
      (h : r.step n round goal s = .ok (.satisfied t)) : Reachable r drafts round goal t
  /-- A branch of a fork begins. -/
  | branch {n : Nat} {goal : Option Claim} {s s' t : State} {f : Fork} {draft : Draft}
      {name : String} (hs : Reachable r drafts round goal s)
      (h : r.step n round goal s = .ok (.fork f s')) (hl : s'.forkDepth < r.settings.maxForkDepth)
      (hd : draft ∈ f.candidates) (hb : r.openBranch n s' draft = .ok (name, t)) :
      Reachable r drafts round (some f.claim) t
  /-- A fork is left with its only successful branch. -/
  | adopt {n : Nat} {goal : Option Claim} {s s' t : State} {f : Fork} {found : Branches}
      (hs : Reachable r drafts round goal s) (h : r.step n round goal s = .ok (.fork f s'))
      (hl : s'.forkDepth < r.settings.maxForkDepth)
      (he : r.explore n (r.run round n (some f.claim)) s' {} f.candidates = .ok (.explored found))
      (ht : found.settle f s' = .ok t) : Reachable r drafts round goal t

/-- The round of the drafts ends in the state, with an empty stack. -/
def Completes (r : Resolver) (n : Nat) (drafts : List Draft) (round : Nat) (s : State) : Prop :=
  ∃ c, r.declareAll n ∅ drafts = .ok c ∧ c.roots.isEmpty = false ∧
    r.run round n none (.start c) = .ok (.finished s)

/-- **How a run that ends gets there**: by its own steps, and by the runs of the branches that it
tries. -/
theorem run_induction {motive : Option Claim → State → RunEnd → Prop}
    (finished : ∀ n goal s, r.step n round goal s = .ok .finished → motive goal s (.finished s))
    (satisfied : ∀ n goal s t, r.step n round goal s = .ok (.satisfied t) →
      motive goal s (.satisfied t))
    (restart : ∀ goal s q, motive goal s (.restart q))
    (next : ∀ n goal s t e, r.step n round goal s = .ok (.next t) → motive goal t e →
      motive goal s e)
    (adopt : ∀ n goal s s' t f found e, r.step n round goal s = .ok (.fork f s') →
      s'.forkDepth < r.settings.maxForkDepth →
      r.explore n (r.run round n (some f.claim)) s' {} f.candidates = .ok (.explored found) →
      (∀ b x, r.run round n (some f.claim) b = .ok x → motive (some f.claim) b x) →
      found.settle f s' = .ok t → motive goal t e → motive goal s e)
    {e : RunEnd} (h : r.run round n goal s = .ok e) : motive goal s e := by
  induction n generalizing goal s e with
  | zero => cases h
  | succ n ih =>
    unfold run at h
    cases hp : r.step n round goal s with
    | error i => simp [hp] at h
    | ok p =>
      cases p with
      | next t => exact next n goal s t e hp (ih (by simpa [hp] using h))
      | satisfied t =>
        obtain rfl : .satisfied t = e := by simpa [hp] using h
        exact satisfied n goal s t hp
      | restart q =>
        obtain rfl : .restart q = e := by simpa [hp] using h
        exact restart goal s q
      | finished =>
        obtain rfl : .finished s = e := by simpa [hp] using h
        exact finished n goal s hp
      | fork f s' =>
        simp only [hp] at h
        split at h
        · next hl =>
          split at h
          · cases h
          · cases h
            exact restart goal s _
          · next found he =>
            split at h
            · next t ht => exact adopt n goal s s' t f found e hp hl he (fun b x => ih) ht (ih h)
            · cases h
        · cases h

/-- A successful branch is one from before, or the run of a candidate that ended in a state. -/
theorem exists_of_explore {runBranch : State → Except Interrupt RunEnd} {found found' : Branches}
    {candidates : List Draft}
    (h : r.explore n runBranch s found candidates = .ok (.explored found')) :
    ∀ x ∈ found'.successes, x ∈ found.successes ∨ ∃ draft ∈ candidates, ∃ b e,
      r.openBranch n s draft = .ok (x.1, b) ∧ runBranch b = .ok e ∧ e.state? = some x.2 := by
  induction candidates generalizing found with
  | nil =>
    cases h
    exact fun x hx => .inl hx
  | cons draft rest ih =>
    -- A branch that succeeds is added to those before.
    have hadd {name b e t} (ho : r.openBranch n s draft = .ok (name, b)) (he : runBranch b = .ok e)
        (ht : e.state? = some t) (x : String × State)
        (hx : x ∈ found.successes ++ [(name, t)] ∨ ∃ draft ∈ rest, ∃ b e,
          r.openBranch n s draft = .ok (x.1, b) ∧ runBranch b = .ok e ∧ e.state? = some x.2) :
        x ∈ found.successes ∨ ∃ d ∈ draft :: rest, ∃ b e,
          r.openBranch n s d = .ok (x.1, b) ∧ runBranch b = .ok e ∧ e.state? = some x.2 := by
      rcases hx with hx | ⟨d, hd, hx⟩
      · refine (List.mem_append.1 hx).imp_right fun hx => ?_
        rw [List.mem_singleton.1 hx]
        exact ⟨draft, List.mem_cons_self, b, e, ho, he, ht⟩
      · exact .inr ⟨d, List.mem_cons_of_mem _ hd, hx⟩
    obtain ⟨⟨name, b⟩, ho, h⟩ := bind_eq_ok.1 h
    dsimp only at h
    split at h
    · cases h
    · next t ht => exact fun x hx => hadd ho ht rfl x (ih h x hx)
    · next t ht => exact fun x hx => hadd ho ht rfl x (ih h x hx)
    · split at h
      · refine fun x hx => (ih h x hx).imp_right ?_
        exact fun ⟨d, hd, hx⟩ => ⟨d, List.mem_cons_of_mem _ hd, hx⟩
      · cases h
    · cases h

/-- A restart that ends the exploration of a fork is demanded in a branch. -/
theorem exists_branch_of_restart {runBranch : State → Except Interrupt RunEnd} {found : Branches}
    {candidates : List Draft} {q : RestartRequest}
    (h : r.explore n runBranch s found candidates = .ok (.restart q)) :
    ∃ draft ∈ candidates, ∃ name b, r.openBranch n s draft = .ok (name, b) ∧
      runBranch b = .ok (.restart q) := by
  induction candidates generalizing found with
  | nil => cases h
  | cons draft rest ih =>
    have hrest {found : Branches} (h : r.explore n runBranch s found rest = .ok (.restart q)) :
        ∃ d ∈ draft :: rest, ∃ name b, r.openBranch n s d = .ok (name, b) ∧
          runBranch b = .ok (.restart q) := by
      obtain ⟨d, hd, hb⟩ := ih h
      exact ⟨d, List.mem_cons_of_mem _ hd, hb⟩
    obtain ⟨⟨name, b⟩, ho, h⟩ := bind_eq_ok.1 h
    dsimp only at h
    split at h
    · next hb =>
      cases h
      exact ⟨draft, List.mem_cons_self, name, b, ho, hb⟩
    · exact hrest h
    · exact hrest h
    · split at h
      · exact hrest h
      · cases h
    · cases h

theorem exists_of_settle {found : Branches} (h : found.settle f s = .ok t) :
    ∃ x ∈ found.successes, t = { x.2 with forkDepth := s.forkDepth } := by
  unfold Branches.settle at h
  split at h
  · next name b hb =>
    cases h
    exact ⟨(name, b), hb ▸ List.mem_singleton_self _, rfl⟩
  · split at h <;> cases h
  · cases h

/-- The state that is adopted is that of a branch, at the depth of the fork. -/
theorem exists_branch_of_adopt {runBranch : State → Except Interrupt RunEnd} {found : Branches}
    (he : r.explore n runBranch s {} f.candidates = .ok (.explored found))
    (ht : found.settle f s = .ok t) :
    ∃ draft ∈ f.candidates, ∃ name b e x, r.openBranch n s draft = .ok (name, b) ∧
      runBranch b = .ok e ∧ e.state? = some x ∧ t = { x with forkDepth := s.forkDepth } := by
  obtain ⟨x, hx, rfl⟩ := exists_of_settle ht
  rcases exists_of_explore he x hx with hx | ⟨draft, hd, b, e, ho, he, hx⟩
  · cases hx
  · exact ⟨draft, hd, x.1, b, e, x.2, ho, he, hx, rfl⟩

/-- A fork is left by moves, those of its only successful branch. -/
theorem moves_of_adopt {found : Branches} {runBranch : State → Except Interrupt RunEnd}
    (hf : ForksAt r s f)
    (hrun : ∀ b e, runBranch b = .ok e → ∀ t, e.state? = some t → Moves r b t)
    (he : r.explore n runBranch s {} f.candidates = .ok (.explored found))
    (ht : found.settle f s = .ok t) : Moves r s t := by
  obtain ⟨draft, hd, name, b, e, x, ho, he, hx, rfl⟩ := exists_branch_of_adopt he ht
  exact ((moves_of_openBranch hf hd ho).trans (hrun b e he x hx)).tail (.nest _)

/-- **A run that ends in a state gets there by moves.** -/
theorem moves_of_run {e : RunEnd} (h : r.run round n goal s = .ok e) :
    ∀ t, e.state? = some t → Moves r s t := by
  refine run_induction (motive := fun _ s e => ∀ t, e.state? = some t → Moves r s t)
    ?_ ?_ ?_ ?_ ?_ h
  · rintro n goal s - t ⟨⟩
    exact .refl
  · rintro n goal s t hp t' ⟨⟩
    exact moves_of_step_satisfied hp
  · rintro goal s q t ⟨⟩
  · intro n goal s s' e hp ih t ht
    exact (moves_of_step_next hp).trans (ih t ht)
  · intro n goal s s' s'' f found e hp hl he hb hs ih t ht
    obtain ⟨rfl, hf⟩ := forksAt_of_step hp
    exact (moves_of_adopt hf hb he hs).trans (ih t ht)

/-! ## What holds throughout -/

/-- **What moves keep holds after any number of moves.** -/
theorem Moves.invariant {I : State → Prop} (hm : ∀ s t, I s → Move r s t → I t)
    (h : Moves r s t) (hs : I s) : I t := by
  induction h with
  | refl => exact hs
  | tail _ h ih => exact hm _ _ ih h

theorem Reachable.exists_start (h : Reachable r drafts round goal s) :
    ∃ n c, r.declareAll n ∅ drafts = .ok c ∧ Moves r (.start c) s := by
  induction h with
  | start hc hr => exact ⟨_, _, hc, .refl⟩
  | next hs h ih =>
    obtain ⟨n, c, hc, hm⟩ := ih
    exact ⟨n, c, hc, hm.trans (moves_of_step_next h)⟩
  | satisfied hs h ih =>
    obtain ⟨n, c, hc, hm⟩ := ih
    exact ⟨n, c, hc, hm.trans (moves_of_step_satisfied h)⟩
  | branch hs h hl hd hb ih =>
    obtain ⟨n, c, hc, hm⟩ := ih
    obtain ⟨rfl, hf⟩ := forksAt_of_step h
    exact ⟨n, c, hc, hm.trans (moves_of_openBranch hf hd hb)⟩
  | adopt hs h hl he ht ih =>
    obtain ⟨n, c, hc, hm⟩ := ih
    obtain ⟨rfl, hf⟩ := forksAt_of_step h
    exact ⟨n, c, hc, hm.trans (moves_of_adopt hf (fun _ _ => moves_of_run) he ht)⟩

/-- **Every state of every run, in branches of forks too, is reached by moves from the start.** -/
theorem Reachable.moves (h : Reachable r drafts round goal s) :
    ∃ c, Declared r drafts c ∧ Moves r (.start c) s := by
  obtain ⟨n, c, hc, hm⟩ := h.exists_start
  exact ⟨c, by simpa using declared_of_declareAll (declared_nil r) hc, hm⟩

/-- A run from a state that is reached ends in one. -/
theorem Reachable.run {e : RunEnd} (hs : Reachable r drafts round goal s)
    (h : r.run round n goal s = .ok e) :
    ∀ t, e.state? = some t → Reachable r drafts round goal t := by
  refine run_induction (motive := fun goal s e => Reachable r drafts round goal s →
    ∀ t, e.state? = some t → Reachable r drafts round goal t) ?_ ?_ ?_ ?_ ?_ h hs
  · rintro n goal s - hs t ⟨⟩
    exact hs
  · rintro n goal s t hp hs t' ⟨⟩
    exact hs.satisfied hp
  · rintro goal s q - t ⟨⟩
  · intro n goal s s' e hp ih hs
    exact ih (hs.next hp)
  · intro n goal s s' s'' f found e hp hl he hb ht ih hs
    exact ih (hs.adopt hp hl he ht)

/-- The state after some steps, if each of them leads to a new state. -/
def stepTimes (r : Resolver) (fuel round : Nat) (goal : Option Claim) : Nat → State → Option State
  | 0, s => some s
  | k + 1, s =>
    match r.step fuel round goal s with
    | .ok (.next t) => stepTimes r fuel round goal k t
    | _ => none

theorem Reachable.stepTimes {k : Nat} (hs : Reachable r drafts round goal s)
    (h : r.stepTimes n round goal k s = some t) : Reachable r drafts round goal t := by
  induction k generalizing s with
  | zero =>
    cases h
    exact hs
  | succ k ih =>
    unfold Resolver.stepTimes at h
    split at h
    · next hp => exact ih (hs.next hp) h
    · cases h

theorem Completes.reachable (h : r.Completes n drafts round s) :
    Reachable r drafts round none s := by
  obtain ⟨c, hc, he, hr⟩ := h
  exact (Reachable.start hc he).run hr s rfl

/-! ## The end of a run -/

/-- A run that is finished has emptied its stack. -/
theorem stack_of_run_finished (h : r.run round n goal s = .ok (.finished t)) : t.stack = [] := by
  refine run_induction (motive := fun _ _ e => ∀ t, e = .finished t → t.stack = [])
    ?_ ?_ ?_ ?_ ?_ h t rfl
  · rintro n goal s hp t ⟨⟩
    exact stack_of_step_finished hp
  · rintro n goal s t - t' ⟨⟩
  · rintro goal s q t ⟨⟩
  · exact fun n goal s s' e _ ih => ih
  · exact fun n goal s s' s'' f found e _ _ _ _ _ ih => ih

/-- Outside forks, a run that ends in a state has emptied its stack. -/
theorem stack_of_run {e : RunEnd} (h : r.run round n none s = .ok e) :
    ∀ t, e.state? = some t → e = .finished t ∧ t.stack = [] := by
  refine run_induction (motive := fun goal s e => goal = none →
    ∀ t, e.state? = some t → e = .finished t ∧ t.stack = []) ?_ ?_ ?_ ?_ ?_ h rfl
  · rintro n goal s hp - t ⟨⟩
    exact ⟨rfl, stack_of_step_finished hp⟩
  · rintro n goal s t hp rfl
    obtain ⟨d, hd⟩ := goal_of_step_satisfied hp
    cases hd
  · rintro goal s q - t ⟨⟩
  · intro n goal s s' e hp ih
    exact ih
  · intro n goal s s' s'' f found e hp hl he hb ht ih
    exact ih

theorem Completes.stack (h : r.Completes n drafts round s) : s.stack = [] := by
  obtain ⟨c, -, -, hr⟩ := h
  exact (stack_of_run hr s rfl).2

/-- **The plans that a round can give are those of the states in which it completes.** -/
theorem resolve_eq_resolved_iff {p : Plan} :
    r.resolve n drafts round = .ok (.resolved p) ↔
      ∃ s, r.Completes n drafts round s ∧ p = s.toPlan round := by
  constructor
  · intro h
    obtain ⟨c, hc, h⟩ := bind_eq_ok.1 h
    split at h <;> rename_i hr
    · cases h
    · obtain ⟨e, he, h⟩ := bind_eq_ok.1 h
      cases e with
      | finished s =>
        cases h
        exact ⟨s, ⟨c, hc, by simpa using hr, he⟩, rfl⟩
      | satisfied s => cases (stack_of_run he s rfl).1
      | restart q => cases h
  · rintro ⟨s, ⟨c, hc, hr, he⟩, rfl⟩
    unfold resolve
    simp only [hc, hr, he, bind, Except.bind]
    rfl

/-- A round that is tried and gives a plan of some kind gives one. -/
theorem exists_plan {x : Except Interrupt Resolution} (P : Plan → Bool)
    (h : (match x with
      | .ok (.resolved p) => P p
      | _ => false) = true) : ∃ p, x = .ok (.resolved p) ∧ P p = true := by
  match x, h with
  | .ok (.resolved p), h => exact ⟨p, rfl, h⟩

/-- A round that is tried and asks for another one asks for it with a demand. -/
theorem exists_restart {x : Except Interrupt Resolution}
    (h : (match x with
      | .ok (.restart _) => true
      | _ => false) = true) : ∃ q, x = .ok (.restart q) := by
  match x, h with
  | .ok (.restart q), _ => exact ⟨q, rfl⟩

/-- What is tried and fails with an error of some kind fails with one. -/
theorem exists_failure {α : Type} {x : Except Interrupt α} (P : Error → Bool)
    (h : (match x with
      | .error (.failure e) => P e
      | _ => false) = true) : ∃ e, x = .error (.failure e) ∧ P e = true := by
  match x, h with
  | .error (.failure e), h => exact ⟨e, rfl, h⟩

/-- A round ends in one state only. -/
theorem Completes.unique (h : r.Completes n drafts round s) (h' : r.Completes n drafts round t) :
    s = t := by
  obtain ⟨c, hc, -, hr⟩ := h
  obtain ⟨c', hc', -, hr'⟩ := h'
  obtain rfl : c = c' := Except.ok.inj (hc.symm.trans hc')
  exact RunEnd.finished.inj (Except.ok.inj (hr.symm.trans hr'))

/-- A round that is tried ends in a state of some kind. -/
theorem exists_completes (r : Resolver) (n : Nat) (drafts : List Draft) (round : Nat)
    (P : State → Bool)
    (h : (match r.declareAll n ∅ drafts with
      | .ok c => !c.roots.isEmpty && match r.run round n none (.start c) with
        | .ok (.finished s) => P s
        | _ => false
      | .error _ => false) = true) : ∃ s, r.Completes n drafts round s ∧ P s = true := by
  split at h
  · next c hc =>
    obtain ⟨hr, h⟩ := Bool.and_eq_true_iff.1 h
    split at h
    · next s hs => exact ⟨s, ⟨c, hc, by simpa using hr, hs⟩, h⟩
    · cases h
  · cases h

/-- A run that is tried reaches a state of some kind. -/
theorem exists_reachable (r : Resolver) (n : Nat) (drafts : List Draft) (round k : Nat)
    (P : State → Bool)
    (h : (match r.declareAll n ∅ drafts with
      | .ok c => !c.roots.isEmpty && (r.stepTimes n round none k (.start c)).any P
      | .error _ => false) = true) :
    ∃ s, Reachable r drafts round none s ∧ P s = true := by
  split at h
  · next c hc =>
    obtain ⟨hr, h⟩ := Bool.and_eq_true_iff.1 h
    obtain ⟨s, hs, hP⟩ := (Option.any_eq_true _ _).1 h
    exact ⟨s, (Reachable.start hc (by simpa using hr)).stepTimes hs, hP⟩
  · cases h

end Resolver

/-! ## The plan of a state -/

namespace State

variable {s : State} {round i : Nat} {n : Node} {c : Component}

theorem getElem?_toPlan (s : State) (round i : Nat) :
    (s.toPlan round).components[i]? = s.resolved[i]?.map (s.componentAt i) :=
  List.getElem?_mapIdx

theorem exists_of_toPlan (h : (s.toPlan round).components[i]? = some c) :
    ∃ n, s.resolved[i]? = some n ∧ c = s.componentAt i n := by
  rw [getElem?_toPlan] at h
  obtain ⟨n, hn, rfl⟩ := Option.map_eq_some_iff.1 h
  exact ⟨n, hn, rfl⟩

theorem size_toPlan (s : State) (round : Nat) : (s.toPlan round).size = s.resolved.length :=
  List.length_mapIdx

@[simp] theorem constructionTargets_bindProxy (s : State) (e : Edge) :
    (s.bindProxy e).constructionTargets = e.constructionTargets := by
  cases e <;> rfl

@[simp] theorem claim_bindProxy (s : State) (e : Edge) : (s.bindProxy e).claim = e.claim := by
  cases e <;> rfl

end State

/-! ## A round with a cycle -/

namespace Resolver

/-- A bus is an interface, and a hub is one. -/
def ring : Resolver where
  types.types := .ofList
    [("Bus", { kind := .interface }), ("Hub", { supertypes := [.named "Bus" []] })]

/-- An application needs the bus, all buses and, if there is any, a clock. The hub needs a port, and
the port needs the bus. -/
def ringDrafts : List Draft :=
  [{ name := "app", type := .named "App" [], isRoot := true,
     claims := [{ type := .named "Bus" [] }, { type := .named "Bus" [], kind := .all },
       { type := .named "Clock" [], kind := .nullable }] },
   { name := "hub", type := .named "Hub" [], claims := [{ type := .named "Port" [] }] },
   { name := "port", type := .named "Port" [], claims := [{ type := .named "Bus" [] }] }]

/-! ## A round with a variable -/

/-- A box of `X`, which is a variable. -/
def boxOfX : TypeExpr := .named "Box" [.var "X"]

/-- A parcel is declared by its constructor, which needs a box of `X`. A crate is declared by its
constructor, too, and has a box of `X` inside. -/
def parcels : Resolver where
  types.types := .ofList
    [("Crate", { wraps := some boxOfX, constructor := some [] }),
      ("Parcel", { constructor := some [{ type := boxOfX }] })]

/-- An application needs the parcel. A box of anything needs all boxes of the same, and a crate. -/
def parcelDrafts : List Draft :=
  [{ name := "app", type := .named "App" [], isRoot := true,
     claims := [{ type := .named "Parcel" [] }] },
   { name := "box", type := .named "Box" [.named "T" []], typeParams := ["T"],
     claims := [{ type := .named "Box" [.named "T" []], kind := .all },
       { type := .named "Crate" [] }] }]

end Resolver

end Wiring
