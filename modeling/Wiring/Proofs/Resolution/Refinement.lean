import Wiring.Proofs.Resolution.Recursion
import Wiring.Proofs.Resolution.Termination
/-!
# The stack computes the recursive resolution

Interceptors are started without being claimed, and the candidates of a fork are tried one beside
the other. Where there is neither, the run of the stack and the recursive resolution agree.

* `Resolver.accounts_descend`: a call that returns is a run of the stack that comes back to the
  frames below, and one that fails or demands another round is a run that does so. The induction is
  on the steps that the calls are given.
* `Resolver.halts_descend`: if the run of the stack ends then the call returns. The induction is on
  the steps of the run, of which fewer are left when a call made deeper has returned.

So rounds end as the recursive resolution does (`Resolver.stack_computes_recursion`).
-/

namespace Wiring

namespace Resolver

variable {r : Resolver} {drafts : List Draft} {n m round : Nat} {s t : State} {d x : Source}
  {f : ComponentFrame} {c : Claim} {cs : List Claim} {path : List Source} {below : List Frame}

/-! ## A call that returns is a run of the stack -/

/-- The run of the stack from a state does what a call returns: it goes on with the frames below,
demands another round or fails. -/
def Accounts (r : Resolver) (round : Nat) (below : List Frame) (s : State) :
    Except Interrupt Descent → Prop
  | .ok (.done t) => Steps r round s { t with stack := below }
  | .ok (.restart q) => Ends r round none s (.ok (.restart q))
  | .error (.failure e) => Ends r round none s (.error (.failure e))
  | .error .outOfFuel => True

theorem Accounts.head {y : Except Interrupt Descent} (h : Steps r round s t)
    (hy : Accounts r round below t y) : Accounts r round below s y := by
  match y with
  | .ok (.done _) => exact h.trans hy
  | .ok (.restart _) => exact h.ends_iff.2 hy
  | .error (.failure _) => exact h.ends_iff.2 hy
  | .error .outOfFuel => trivial

/-- The calls behind a call whose frame is on top: those of the components that wait below it. -/
structure Called (r : Resolver) (drafts : List Draft) (round : Nat) (path : List Source) (s : State)
    (f : ComponentFrame) (below : List Frame) : Prop where
  /-- The stack comes to this state. -/
  reachable : Reachable r drafts round none { s with stack := .component f :: below }
  /-- The call path is what is in progress below. -/
  path : below.filterMap Frame.source? = path
  /-- The component is not in progress below. -/
  unmet : f.source.id ∉ Frame.ids below

theorem Called.step_eq (h : Called r drafts round path s f below) (n : Nat)
    (hp : f.pending = c :: cs) :
    r.step n round none { s with stack := .component f :: below } =
      (r.lookUp n round path s f.source c).map (Decision.progress s f c below) :=
  step_eq_lookUp h.path h.unmet hp

/-- A declaration that a lookup asks for is started. -/
theorem Called.starts {catalog : Catalog} (h : Called r drafts round path s f below)
    (hi : ∀ i t, ¬ r.types.Intercepts i t) (hp : f.pending = c :: cs)
    (hl : r.lookUp n round path s f.source c = .ok (.build x catalog)) :
    Next r round { s with stack := .component f :: below }
      { s with catalog, stack := .component (.start x) :: .component f :: below } := by
  have hstep : r.step n round none { s with stack := .component f :: below } =
      .ok (.next ({ s with catalog, stack := .component f :: below }.push x)) := by
    rw [h.step_eq n hp, hl]
    rfl
  have hsound : catalog.Sound r.types := (h.reachable.next hstep).identified.sound
  rw [push_eq hi hsound] at hstep
  exact ⟨n, hstep⟩

theorem Called.step_eq_cycle (h : Called r drafts round path t f below) (s : State) (n : Nat)
    (hx : (f.source :: path).any (·.id == x.id) = true) (hp : f.pending = c :: cs) :
    r.step n round none { s with stack := .component (.start x) :: .component f :: below } =
      (r.cycleEdge n (f.source :: path) s c x).map fun y =>
        .next { y.2 with stack := .component (f.answer y.1) :: below } :=
  step_eq_cycleEdge h.path hx hp

/-- A declaration that is started and not on the call path is called. -/
theorem Called.deeper (h : Called r drafts round path t f below)
    (hr : Reachable r drafts round none
      { s with stack := .component (.start x) :: .component f :: below })
    (hx : ¬ (f.source :: path).any (·.id == x.id) = true) :
    Called r drafts round (f.source :: path) s (.start x) (.component f :: below) where
  reachable := hr
  path := by rw [List.filterMap_cons, h.path]; rfl
  unmet hm := by
    rw [Frame.ids, List.filterMap_cons, h.path] at hm
    obtain ⟨y, hy, e⟩ := List.mem_map.1 hm
    exact hx (List.any_eq_true.2 ⟨y, hy, beq_iff_eq.2 e⟩)

/-- **A call that returns is a run of the stack** that comes back to the frames below. -/
theorem accounts_descend (hi : ∀ i t, ¬ r.types.Intercepts i t) (hf : NeverForks r drafts round)
    (h : Called r drafts round path s f below) :
    Accounts r round below { s with stack := .component f :: below }
      (r.descend round n path s f) := by
  induction n generalizing path s f below with
  | zero => trivial
  | succ n ih =>
    -- The run goes on to a state in which the same component is worked on.
    have hagain {t : State} {f' : ComponentFrame} (hsource : f'.source = f.source)
        (ht : Steps r round { s with stack := .component f :: below }
          { t with stack := .component f' :: below }) :
        Accounts r round below { s with stack := .component f :: below }
          (r.descend round n path t f') :=
      (ih ⟨ht.reachable h.reachable, h.path, hsource ▸ h.unmet⟩).head ht
    unfold descend
    split
    · next hp => exact .single ⟨0, step_of_done h.unmet hp⟩
    · next c cs hp =>
      have hstep := h.step_eq n hp
      cases hl : r.lookUp n round path s f.source c with
      | error i =>
        rw [hl] at hstep
        cases i with
        | outOfFuel => trivial
        | failure e => exact ends_of_step_error hstep
      | ok d =>
        rw [hl] at hstep
        cases d with
        | bind e => exact hagain rfl (.single ⟨n, hstep⟩)
        | retry catalog => exact hagain (t := { s with catalog }) rfl (.single ⟨n, hstep⟩)
        | restart q => exact ends_of_step_restart hstep
        | fork candidates => exact absurd hstep (hf _ _ _ _ h.reachable)
        | build x catalog =>
          have hnext : Steps r round _ _ := .single (h.starts hi hp hl)
          have hr := hnext.reachable h.reachable
          change Accounts r round below _
            (r.follow n (r.descend round n) path s f c (.build x catalog))
          by_cases hx : (f.source :: path).any (·.id == x.id) = true
          · have hcycle := h.step_eq_cycle { s with catalog } n hx hp
            rw [follow_of_cycle hx]
            cases he : r.cycleEdge n (f.source :: path) { s with catalog } c x with
            | error i =>
              rw [he] at hcycle
              cases i with
              | outOfFuel => trivial
              | failure e => exact Accounts.head hnext (ends_of_step_error hcycle)
            | ok y =>
              rw [he] at hcycle
              exact hagain rfl (hnext.tail ⟨n, hcycle⟩)
          · have hcall := (ih (h.deeper (s := { s with catalog }) hr hx)).head hnext
            rw [follow_of_call hx]
            cases hd : r.descend round n (f.source :: path) { s with catalog } (.start x) with
            | error i =>
              rw [hd] at hcall
              cases i with
              | outOfFuel => trivial
              | failure e => exact hcall
            | ok y =>
              rw [hd] at hcall
              cases y with
              | done t => exact hagain rfl hcall
              | restart q => exact hcall

/-! ## If the run of the stack ends then the call returns -/

theorem halts_of_lookUp (hp : f.pending = c :: cs)
    (hl : Halts fun n => r.lookUp n round path s f.source c)
    (hd : ∀ n d, r.lookUp n round path s f.source c = .ok d →
      Halts fun m => r.follow m (r.descend round m) path s f c d) :
    Halts fun n => r.descend round n path s f := by
  obtain ⟨n, hn⟩ := hl.bind (f := fun n => r.follow n (r.descend round n) path s f c)
    approximates_lookUp (fun hn => approximates_follow hn fun _ _ _ => approximates_descend hn) hd
  exact ⟨n + 1, by simpa only [descend, hp] using hn⟩

/-- **If the run of the stack ends then the call returns.** -/
theorem halts_descend (hi : ∀ i t, ¬ r.types.Intercepts i t) (hf : NeverForks r drafts round)
    (h : Called r drafts round path s f below)
    (hr : r.run round n none { s with stack := .component f :: below } ≠ .error .outOfFuel) :
    Halts fun m => r.descend round m path s f := by
  induction n using Nat.strong_induction_on generalizing path s f below with
  | h n ih =>
    -- The run goes on to a state in which the same component is worked on.
    have hagain {t u : State} {f' : ComponentFrame} (hsource : f'.source = f.source)
        (hnext : Next r round { s with stack := .component f :: below } u)
        (hu : Steps r round u { t with stack := .component f' :: below }) :
        Halts fun m => r.descend round m path t f' := by
      obtain ⟨k, hk, hr⟩ := exists_run_of_next hnext hr
      obtain ⟨m, hm, hr⟩ := hu.exists_run hr
      have hsteps : Steps r round _ _ := .head hnext hu
      exact ih m (by omega) ⟨hsteps.reachable h.reachable, h.path, hsource ▸ h.unmet⟩ hr
    cases hp : f.pending with
    | nil => exact ⟨1, by simp [descend, hp]⟩
    | cons c cs =>
      obtain ⟨k, hk⟩ := exists_step_of_run hr
      rw [h.step_eq k hp] at hk
      refine halts_of_lookUp hp (halts_of_map hk) fun k d hl => ?_
      have hstep := hl ▸ h.step_eq k hp
      cases d with
      | bind e => exact hagain rfl ⟨k, hstep⟩ .refl
      | retry catalog => exact hagain (t := { s with catalog }) rfl ⟨k, hstep⟩ .refl
      | restart q => exact halts_ok _
      | fork candidates => exact absurd hstep (hf _ _ _ _ h.reachable)
      | build x catalog =>
        have hnext := h.starts hi hp hl
        have hsteps : Steps r round _ _ := .single hnext
        obtain ⟨j, hj, hrun⟩ := exists_run_of_next hnext hr
        by_cases hx : (f.source :: path).any (·.id == x.id) = true
        · obtain ⟨i, hstep⟩ := exists_step_of_run hrun
          rw [h.step_eq_cycle { s with catalog } i hx hp] at hstep
          simp only [follow_of_cycle hx]
          refine Halts.bind (halts_of_map hstep) approximates_cycleEdge
            (fun hn _ => approximates_descend hn) fun i y he => ?_
          exact hagain rfl hnext (.single ⟨i, (h.step_eq_cycle _ i hx hp).trans (by rw [he])⟩)
        · have hcall := h.deeper (s := { s with catalog }) (hsteps.reachable h.reachable) hx
          simp only [follow_of_call hx]
          refine (ih j hj hcall hrun).bind approximates_descend (fun hn y => ?_) fun i y hy => ?_
          · cases y with
            | done t => exact approximates_descend hn
            | restart q => exact .refl _
          · cases y with
            | done t =>
              have hret := accounts_descend (n := i) hi hf hcall
              rw [hy] at hret
              exact hagain rfl hnext hret
            | restart q => exact halts_ok _

/-! ## The roots -/

theorem next_of_root_resolved (below : List Frame) (hd : s.isResolved d.id = true) :
    Next r round { s with stack := .root d :: below } { s with stack := below } := by
  have hd : ({ s with stack := below } : State).isResolved d.id = true := hd
  exact ⟨0, by simp only [step, hd, if_true]⟩

theorem next_of_root (below : List Frame) (hi : ∀ i t, ¬ r.types.Intercepts i t)
    (hs : s.catalog.Sound r.types) (hd : ¬ s.isResolved d.id = true) :
    Next r round { s with stack := .root d :: below }
      { s with stack := .component (.start d) :: below } := by
  have hd : ¬ ({ s with stack := below } : State).isResolved d.id = true := hd
  exact ⟨0, by simp only [step, if_neg hd, push_eq (s := { s with stack := below }) hi hs]⟩

theorem called_root {ds : List Source} (hr : Reachable r drafts round none
    { s with stack := .component (.start d) :: ds.map .root }) :
    Called r drafts round [] s (.start d) (ds.map .root) where
  reachable := hr
  path := by simp [List.filterMap_map, Function.comp_def, Frame.source?]
  unmet := by simp [Frame.ids, List.filterMap_map, Function.comp_def, Frame.source?]

/-- The roots are resolved one after the other in the recursion and by the run of the stack. -/
theorem accounts_descendAll {ds : List Source} (hi : ∀ i t, ¬ r.types.Intercepts i t)
    (hf : NeverForks r drafts round)
    (hr : Reachable r drafts round none { s with stack := ds.map .root }) :
    Accounts r round [] { s with stack := ds.map .root } (r.descendAll n round s ds) := by
  induction ds generalizing s with
  | nil => exact .refl
  | cons d ds ih =>
    unfold descendAll
    split
    · next hd =>
      have hnext : Steps r round _ _ := .single (next_of_root_resolved (ds.map .root) hd)
      exact (ih (hnext.reachable hr)).head hnext
    · next hd =>
      have hsound : s.catalog.Sound r.types := hr.identified.sound
      have hnext : Steps r round _ _ := .single (next_of_root (ds.map .root) hi hsound hd)
      have hcall := (accounts_descend (n := n) hi hf
        (called_root (s := s) (hnext.reachable hr))).head hnext
      cases hy : r.descend round n [] s (.start d) with
      | error i =>
        rw [hy] at hcall
        cases i with
        | outOfFuel => trivial
        | failure e => exact hcall
      | ok y =>
        rw [hy] at hcall
        cases y with
        | done t => exact (ih (hcall.reachable hr)).head hcall
        | restart q => exact hcall

/-- If the run of the stack ends then the resolution of the roots returns. -/
theorem halts_descendAll {ds : List Source} (hi : ∀ i t, ¬ r.types.Intercepts i t)
    (hf : NeverForks r drafts round)
    (hreach : Reachable r drafts round none { s with stack := ds.map .root })
    (hr : r.run round n none { s with stack := ds.map .root } ≠ .error .outOfFuel) :
    Halts fun m => r.descendAll m round s ds := by
  induction ds generalizing n s with
  | nil => exact halts_ok _
  | cons d ds ih =>
    by_cases hd : s.isResolved d.id = true
    · have hnext : Steps r round _ _ := .single (next_of_root_resolved (ds.map .root) hd)
      obtain ⟨m, -, hr⟩ := hnext.exists_run hr
      simpa only [descendAll, if_pos hd] using ih (hnext.reachable hreach) hr
    · have hsound : s.catalog.Sound r.types := hreach.identified.sound
      have hnext : Steps r round _ _ := .single (next_of_root (ds.map .root) hi hsound hd)
      have hcalled := called_root (s := s) (hnext.reachable hreach)
      obtain ⟨m, -, hrun⟩ := hnext.exists_run hr
      simp only [descendAll, if_neg hd]
      refine (halts_descend hi hf hcalled hrun).bind approximates_descend (fun hn y => ?_)
        fun i y hy => ?_
      · cases y with
        | done t => exact approximates_descendAll hn
        | restart q => exact .refl _
      · cases y with
        | done t =>
          have hret := accounts_descend (n := i) hi hf hcalled
          rw [hy] at hret
          obtain ⟨k, -, hr⟩ := hret.exists_run hrun
          exact ih (hret.reachable hcalled.reachable) hr
        | restart q => exact halts_ok _

/-! ## Rounds -/

/-- How a run ends that does what the recursion returns. -/
def Descent.runEnd : Descent → RunEnd
  | .done s => .finished { s with stack := [] }
  | .restart q => .restart q

theorem Accounts.ends {y : Except Interrupt Descent} (h : Accounts r round [] s y)
    (hy : y.map Descent.runEnd ≠ .error .outOfFuel) :
    Ends r round none s (y.map Descent.runEnd) := by
  match y with
  | .ok (.done t) =>
    exact (Steps.ends_iff h).2 ⟨nofun, 1, by simp [run, step, Except.map, Descent.runEnd]⟩
  | .ok (.restart _) => exact h
  | .error (.failure _) => exact h
  | .error .outOfFuel => exact absurd rfl hy

/-- **The run of the stack ends as the recursion does**, or both do not. -/
theorem run_iff_descendAll (hi : ∀ i t, ¬ r.types.Intercepts i t) (hf : NeverForks r drafts round)
    {catalog : Catalog} {y : Except Interrupt RunEnd} (hr : catalog.roots.isEmpty = false)
    (hy : y ≠ .error .outOfFuel) :
    (∃ n, r.declareAll n ∅ drafts = .ok catalog ∧ r.run round n none (.start catalog) = y) ↔
      ∃ n, r.declareAll n ∅ drafts = .ok catalog ∧
        (r.descendAll n round { catalog } catalog.roots).map Descent.runEnd = y := by
  have hends {n : Nat} (hc : r.declareAll n ∅ drafts = .ok catalog) (m : Nat) :=
    Accounts.ends (accounts_descendAll (n := m) (s := { catalog }) hi hf (Reachable.start hc hr))
  constructor
  · rintro ⟨n, hc, hn⟩
    obtain ⟨m, hm⟩ := halts_descendAll (s := { catalog }) hi hf (Reachable.start hc hr) (hn ▸ hy)
    have hlast : r.descendAll (max n m) round { catalog } catalog.roots ≠ .error .outOfFuel :=
      fun h => hm (((approximates_descendAll (Nat.le_max_right n m)).eq hm).trans h)
    exact ⟨max n m, declareAll_of_le (Nat.le_max_left n m) hc,
      (hends hc _ (mt map_eq_outOfFuel.1 hlast)).unique ⟨hy, n, hn⟩⟩
  · rintro ⟨n, hc, hn⟩
    obtain ⟨-, m, hm⟩ := hends hc n (hn ▸ hy)
    exact ⟨max n m, declareAll_of_le (Nat.le_max_left n m) hc,
      run_of_le (Nat.le_max_right n m) hy (hm.trans hn)⟩

/-- The outcome of the recursive resolution is this one, given enough steps. -/
def YieldsRecursively (r : Resolver) (drafts : List Draft) (round : Nat)
    (y : Except Interrupt Resolution) : Prop :=
  y ≠ .error .outOfFuel ∧ ∃ n, r.resolveRecursively n drafts round = y

/-- The recursive resolution of the drafts ends in the state. -/
def CompletesRecursively (r : Resolver) (n : Nat) (drafts : List Draft) (round : Nat) (s : State) :
    Prop :=
  ∃ c, r.declareAll n ∅ drafts = .ok c ∧ c.roots.isEmpty = false ∧
    r.descendAll n round { catalog := c } c.roots = .ok (.done s)

theorem resolveRecursively_eq_map {catalog : Catalog} (hc : r.declareAll n ∅ drafts = .ok catalog)
    (hr : catalog.roots.isEmpty = false) : r.resolveRecursively n drafts round =
      ((r.descendAll n round { catalog } catalog.roots).map Descent.runEnd).map
        (resolution round) := by
  simp only [resolveRecursively, hc, hr, bind, Except.bind]
  cases r.descendAll n round { catalog } catalog.roots with
  | error i => rfl
  | ok y => cases y <;> rfl

/-- If there is nothing to resolve then both give the same error. -/
theorem resolveRecursively_eq (h : ∀ c, r.declareAll n ∅ drafts = .ok c → c.roots.isEmpty = true) :
    r.resolveRecursively n drafts round = r.resolve n drafts round := by
  unfold resolveRecursively resolve
  cases hc : r.declareAll n ∅ drafts with
  | error i => rfl
  | ok c => simp only [h c hc, bind, Except.bind]; rfl

theorem map_runEnd_eq_finished {y : Except Interrupt Descent} :
    y.map Descent.runEnd = .ok (.finished s) ↔
      ∃ t, y = .ok (.done t) ∧ { t with stack := [] } = s := by
  match y with
  | .ok (.done _) | .ok (.restart _) | .error _ => simp [Except.map, Descent.runEnd]

/-- Where nothing is a template no round forks. -/
theorem Plain.neverForks (hp : r.Plain drafts) : NeverForks r drafts round := by
  intro n s f t hs h
  obtain ⟨m, c, hc, hm⟩ := hs.exists_start
  have hd : Declared r drafts c := by simpa using declared_of_declareAll (declared_nil r) hc
  obtain ⟨K, hK, hconf⟩ := exists_pool hp hd (validate_of_declareAll hc)
  have ht := (hm.confined hd hK hp.extensions hconf).templates
  rcases stack_ne_of_step ht hp.extensions h with h | ⟨t, h, -⟩ <;> cases h

/-- **The stack computes the recursive resolution**, if no type intercepts another and the round
never forks: both have the same outcomes, and they finish the same components in the same order,
with the same edges. -/
theorem stack_computes_recursion (r : Resolver) (drafts : List Draft) (round : Nat)
    (hi : ∀ i t, ¬ r.types.Intercepts i t) (hf : NeverForks r drafts round) :
    (∀ y, Yields r drafts round y ↔ YieldsRecursively r drafts round y) ∧
      ∀ nodes, (∃ n s, r.Completes n drafts round s ∧ s.resolved = nodes) ↔
        ∃ n s, r.CompletesRecursively n drafts round s ∧ s.resolved = nodes := by
  have hempty {n : Nat} (h : ¬ ∃ c, r.declareAll n ∅ drafts = .ok c ∧ c.roots.isEmpty = false) :
      r.resolveRecursively n drafts round = r.resolve n drafts round :=
    resolveRecursively_eq fun c hc => eq_true_of_ne_false fun hr => h ⟨c, hc, hr⟩
  refine ⟨fun y => and_congr_right fun hy => ⟨?_, ?_⟩, fun nodes => ⟨?_, ?_⟩⟩
  · rintro ⟨n, hn⟩
    by_cases h : ∃ c, r.declareAll n ∅ drafts = .ok c ∧ c.roots.isEmpty = false
    · obtain ⟨c, hc, hr⟩ := h
      rw [resolve_eq_map hc hr] at hn
      have hx := mt map_eq_outOfFuel.2 (hn ▸ hy)
      obtain ⟨m, hcm, hm⟩ := (run_iff_descendAll hi hf hr hx).1 ⟨n, hc, rfl⟩
      exact ⟨m, by rw [resolveRecursively_eq_map hcm hr, hm, hn]⟩
    · exact ⟨n, (hempty h).trans hn⟩
  · rintro ⟨n, hn⟩
    by_cases h : ∃ c, r.declareAll n ∅ drafts = .ok c ∧ c.roots.isEmpty = false
    · obtain ⟨c, hc, hr⟩ := h
      rw [resolveRecursively_eq_map hc hr] at hn
      have hx := mt map_eq_outOfFuel.2 (hn ▸ hy)
      obtain ⟨m, hcm, hm⟩ := (run_iff_descendAll hi hf hr hx).2 ⟨n, hc, rfl⟩
      exact ⟨m, by rw [resolve_eq_map hcm hr, hm, hn]⟩
    · exact ⟨n, (hempty h).symm.trans hn⟩
  · rintro ⟨n, s, ⟨c, hc, hr, hs⟩, rfl⟩
    obtain ⟨m, hcm, hm⟩ := (run_iff_descendAll (y := .ok (.finished s)) hi hf hr nofun).1
      ⟨n, hc, hs⟩
    obtain ⟨t, ht, rfl⟩ := map_runEnd_eq_finished.1 hm
    exact ⟨m, t, ⟨c, hcm, hr, ht⟩, rfl⟩
  · rintro ⟨n, s, ⟨c, hc, hr, hs⟩, rfl⟩
    obtain ⟨m, hcm, hm⟩ := (run_iff_descendAll (y := .ok (.finished { s with stack := [] }))
      hi hf hr nofun).2 ⟨n, hc, map_runEnd_eq_finished.2 ⟨s, hs, rfl⟩⟩
    exact ⟨m, _, ⟨c, hcm, hr, hm⟩, rfl⟩

theorem stack_computes_recursion_ring : (∀ i t, ¬ ring.types.Intercepts i t) ∧
    NeverForks ring ringDrafts 0 ∧
    ∃ p, YieldsRecursively ring ringDrafts 0 (.ok (.resolved p)) ∧ p.size = 4 := by
  have hi : ∀ i t, ¬ ring.types.Intercepts i t := Universe.not_intercepts (by decide +kernel)
  have hf : NeverForks ring ringDrafts 0 := plain_ring.neverForks
  obtain ⟨p, hp, hsize⟩ := exists_plan (x := ring.resolve 50 ringDrafts 0) (fun p => p.size == 4)
    (by decide +kernel)
  have hrec := ((stack_computes_recursion ring ringDrafts 0 hi hf).1
    (.ok (.resolved p))).1 ⟨nofun, 50, hp⟩
  exact ⟨hi, hf, p, hrec, by simpa using hsize⟩

end Resolver

end Wiring
