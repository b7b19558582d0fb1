import Wiring.Proofs.Resolution.Runs
/-!
# More steps change nothing

Searches and runs are limited in the number of their steps, and break off when it does not suffice.
With more of them the outcome is the same, so that what does not break off for this reason has one
outcome only: `Resolver.Ends` is that of a run, and `Resolver.Yields` that of a round.

* `Resolver.approximates_step`, `Resolver.approximates_run` and `Resolver.approximates_resolve`:
  more steps keep the outcome, of one step of the stack, of a run and of a round.
* `Resolver.ends_iff_of_next` and `Resolver.ends_iff_of_adopt`: a run ends as it does from the next
  state, or from the one with which a fork is left.
-/

namespace Wiring

/-! ## Searches -/

theorem mapM_mono {α β : Type} {f g : α → Option β} (hfg : ∀ a b, f a = some b → g a = some b)
    {l : List α} {l' : List β} (h : l.mapM f = some l') : l.mapM g = some l' := by
  induction l generalizing l' with
  | nil => simpa using h
  | cons a l ih =>
    rw [List.mapM_cons] at h ⊢
    obtain ⟨b, hb, h⟩ := Option.bind_eq_some_iff.1 h
    obtain ⟨bs, hbs, h⟩ := Option.bind_eq_some_iff.1 h
    exact Option.bind_eq_some_iff.2 ⟨b, hfg a b hb, Option.bind_eq_some_iff.2 ⟨bs, ih hbs, h⟩⟩

section Searches

variable {u : Universe} {n m : Nat}

theorem Declaration.specialize?_mono {d : Declaration} {c : Claim} {x : Option Draft} (hn : n ≤ m)
    (h : d.specialize? u n c = some x) : d.specialize? u m c = some x := by
  unfold specialize? at h ⊢
  split at h <;> rename_i ha
  · rw [if_pos ha]
    obtain ⟨σ, hσ, h⟩ := Option.bind_eq_some_iff.1 h
    exact Option.bind_eq_some_iff.2 ⟨σ, Universe.unify?_mono hn hσ, h⟩
  · rw [if_neg ha]
    exact h

theorem Claim.specializations?_mono {c : Claim} {ts : List Declaration} {ds : List Draft}
    (hn : n ≤ m) (h : c.specializations? u n ts = some ds) :
    c.specializations? u m ts = some ds := by
  obtain ⟨found, hf, h⟩ := Option.bind_eq_some_iff.1 h
  exact Option.bind_eq_some_iff.2
    ⟨found, mapM_mono (fun _ _ => Declaration.specialize?_mono hn) hf, h⟩

end Searches

namespace Resolver

variable {r : Resolver} {n m round : Nat} {goal : Option Claim} {s t : State} {q : Source}
  {c : Claim} {draft : Draft}

theorem canSatisfy?_mono {b : Bool} (hn : n ≤ m) (h : r.canSatisfy? n draft c = some b) :
    r.canSatisfy? m draft c = some b := by
  unfold canSatisfy? at h ⊢
  dsimp only at h ⊢
  split at h <;> rename_i ht
  · rw [if_pos ht]
    obtain ⟨x, hx, h⟩ := Option.bind_eq_some_iff.1 h
    exact Option.bind_eq_some_iff.2 ⟨x, Declaration.specialize?_mono hn hx, h⟩
  · rw [if_neg ht]
    obtain ⟨x, hx, h⟩ := Option.bind_eq_some_iff.1 h
    exact Option.bind_eq_some_iff.2 ⟨x, Source.ofDeclaration?_mono hn hx, h⟩

/-! ## Outcomes -/

section Approximates

variable {α β : Type} {x y z : Except Interrupt α}

/-- The first outcome is the second, unless the steps did not suffice for it. -/
def Approximates (x y : Except Interrupt α) : Prop := x = .error .outOfFuel ∨ x = y

theorem Approximates.refl (x : Except Interrupt α) : Approximates x x := .inr rfl

theorem Approximates.eq (h : Approximates x y) (hx : x ≠ .error .outOfFuel) : x = y :=
  h.resolve_left hx

theorem Approximates.bind {f g : α → Except Interrupt β} (h : Approximates x y)
    (hf : ∀ a, Approximates (f a) (g a)) : Approximates (x >>= f) (y >>= g) := by
  rcases h with rfl | rfl
  · exact .inl rfl
  · cases x with
    | error i => exact .inr rfl
    | ok a => exact hf a

theorem approximates_budgeted {x y : Option α} (h : ∀ a, x = some a → y = some a) :
    Approximates (budgeted x) (budgeted y) := by
  cases x with
  | none => exact .inl rfl
  | some a => exact .inr (by rw [h a rfl])

/-- There is one result only. -/
theorem ok_unique {x : Nat → Except Interrupt α} {a b : α}
    (hx : ∀ {n m}, n ≤ m → Approximates (x n) (x m)) (ha : x n = .ok a) (hb : x m = .ok b) :
    a = b := by
  have ha' := (hx (Nat.le_max_left n m)).eq (by simp [ha])
  have hb' := (hx (Nat.le_max_right n m)).eq (by simp [hb])
  exact Except.ok.inj (ha.symm.trans (ha'.trans (hb'.symm.trans hb)))

/-- Enough steps give an outcome. -/
def Halts (x : Nat → Except Interrupt α) : Prop := ∃ n, x n ≠ .error .outOfFuel

theorem map_eq_outOfFuel {g : α → β} : x.map g = .error .outOfFuel ↔ x = .error .outOfFuel := by
  cases x <;> simp [Except.map]

theorem halts_ok (a : α) : Halts fun _ => .ok a := ⟨0, by simp⟩

theorem halts_of_map {x : Nat → Except Interrupt α} {g : α → β} {n : Nat}
    (h : (x n).map g ≠ .error .outOfFuel) : Halts x :=
  ⟨n, fun e => h (map_eq_outOfFuel.2 e)⟩

/-- **Two computations end one after the other**, if the second ends with what the first gives. -/
theorem Halts.bind {x : Nat → Except Interrupt α} {f : Nat → α → Except Interrupt β} (hx : Halts x)
    (hxn : ∀ {n m}, n ≤ m → Approximates (x n) (x m))
    (hfn : ∀ {n m}, n ≤ m → ∀ a, Approximates (f n a) (f m a))
    (hf : ∀ n a, x n = .ok a → Halts fun m => f m a) : Halts fun n => x n >>= f n := by
  obtain ⟨n, hn⟩ := hx
  cases hx : x n with
  | error i =>
    rw [hx] at hn
    refine ⟨n, fun h => hn ?_⟩
    rcases bind_eq_error.1 h with h | ⟨a, h, -⟩
    · exact hx.symm.trans h
    · cases hx.symm.trans h
  | ok a =>
    obtain ⟨m, hm⟩ := hf n a hx
    have hmax : x (max n m) = .ok a := ((hxn (Nat.le_max_left n m)).eq hn).symm.trans hx
    refine ⟨max n m, fun h => hm ?_⟩
    rcases bind_eq_error.1 h with h | ⟨b, hb, h⟩
    · cases hmax.symm.trans h
    · cases hmax.symm.trans hb
      exact ((hfn (Nat.le_max_right n m) a).eq hm).trans h

end Approximates

/-! ## What more steps keep -/

theorem approximates_buildNew (hn : n ≤ m) :
    Approximates (r.buildNew n s draft) (r.buildNew m s draft) :=
  (approximates_budgeted fun _ => Catalog.registerSource?_mono hn).bind fun _ => .refl _

theorem approximates_templates (hn : n ≤ m) :
    Approximates (r.fromTemplates n s c) (r.fromTemplates m s c) := by
  refine (approximates_budgeted fun _ => Claim.specializations?_mono hn).bind fun ds => ?_
  match ds with
  | [] => exact .refl _
  | [draft] => exact approximates_buildNew hn
  | _ :: _ :: _ => exact .refl _

theorem approximates_nothing (hn : n ≤ m) :
    Approximates (r.fromNothing n s c) (r.fromNothing m s c) := by
  unfold fromNothing
  split
  · exact .refl _
  · split
    · exact approximates_buildNew hn
    · split
      · split
        · exact approximates_buildNew hn
        · exact .refl _
      · exact .refl _

theorem approximates_accept {name : String} (hn : n ≤ m) :
    Approximates (r.accept n s c name draft) (r.accept m s c name draft) := by
  refine (Approximates.refl _).bind fun _ => ?_
  refine (approximates_budgeted fun _ => canSatisfy?_mono hn).bind fun b => ?_
  cases b with
  | false => exact .refl _
  | true =>
    exact (approximates_budgeted fun _ => Catalog.register?_mono hn).bind fun _ => .refl _

theorem approximates_extensions (hn : n ≤ m) :
    Approximates (r.fromExtensions n round s q c) (r.fromExtensions m round s q c) := by
  refine (Approximates.refl _).bind fun o => ?_
  match o with
  | some ⟨_, .supply _⟩ => exact (approximates_accept hn).bind fun _ => .refl _
  | some ⟨_, .newRound⟩ | some ⟨_, .noOpinion⟩ | none => exact .refl _

theorem approximates_decide (hn : n ≤ m) :
    Approximates (r.decide n round s q c) (r.decide m round s q c) := by
  refine (Approximates.refl _).bind fun d => ?_
  cases d with
  | some d => exact .refl _
  | none =>
    refine (approximates_templates hn).bind fun d => ?_
    cases d with
    | some d => exact .refl _
    | none =>
      refine (approximates_nothing hn).bind fun d => ?_
      cases d with
      | some d => exact .refl _
      | none => exact (approximates_extensions hn).bind fun _ => .refl _

theorem approximates_proxyFor {claimed : TypeExpr} (hn : n ≤ m) :
    Approximates (r.proxyFor n s q claimed) (r.proxyFor m s q claimed) := by
  unfold proxyFor
  split
  · exact .refl _
  · exact (approximates_budgeted fun _ => Catalog.registerSource?_mono hn).bind fun _ => .refl _

theorem approximates_breakCycle (hn : n ≤ m) :
    Approximates (r.breakCycle n s q) (r.breakCycle m s q) := by
  unfold breakCycle
  split
  · split
    · split
      · split
        · exact (approximates_proxyFor hn).bind fun _ => .refl _
        · exact .refl _
      · exact .refl _
    · exact .refl _
  · exact .refl _

/-- **More steps keep what a step of the stack leads to.** -/
theorem approximates_step (hn : n ≤ m) :
    Approximates (r.step n round goal s) (r.step m round goal s) := by
  unfold step
  split
  · exact .refl _
  · exact .refl _
  · refine (approximates_breakCycle hn).bind fun o => ?_
    cases o with
    | some t => exact .refl _
    | none =>
      dsimp only
      split
      · exact .refl _
      · unfold advance
        split
        · exact .refl _
        · split
          · exact .refl _
          · exact (approximates_decide hn).bind fun _ => .refl _

theorem approximates_openBranch (hn : n ≤ m) :
    Approximates (r.openBranch n s draft) (r.openBranch m s draft) :=
  (approximates_budgeted fun _ => Catalog.registerSource?_mono hn).bind fun _ => .refl _

theorem approximates_explore {runBranch runBranch' : State → Except Interrupt RunEnd}
    {found : Branches} {candidates : List Draft} (hn : n ≤ m)
    (hr : ∀ b, Approximates (runBranch b) (runBranch' b)) :
    Approximates (r.explore n runBranch s found candidates)
      (r.explore m runBranch' s found candidates) := by
  induction candidates generalizing found with
  | nil => exact .refl _
  | cons draft rest ih =>
    refine (approximates_openBranch hn).bind fun ⟨name, b⟩ => ?_
    dsimp only
    rcases hr b with h | h
    · rw [h]
      exact .inl rfl
    · rw [h]
      split
      · exact .refl _
      · exact ih
      · exact ih
      · split
        · exact ih
        · exact .refl _
      · exact .refl _

/-- **More steps keep the end of a run.** -/
theorem approximates_run (hn : n ≤ m) :
    Approximates (r.run round n goal s) (r.run round m goal s) := by
  induction n generalizing m goal s with
  | zero => exact .inl rfl
  | succ n ih =>
    obtain ⟨m, rfl⟩ : ∃ k, m = k + 1 := ⟨m - 1, by omega⟩
    have hn : n ≤ m := by omega
    unfold run
    have hp : Approximates (r.step n round goal s) (r.step m round goal s) := approximates_step hn
    rcases hp with h | h
    · rw [h]
      exact .inl rfl
    · rw [h]
      split
      · exact .refl _
      · exact .refl _
      · exact .refl _
      · exact .refl _
      · exact ih hn
      · next f s' hp =>
        split
        · have he : Approximates
              (r.explore n (r.run round n (some f.claim)) s' {} f.candidates)
              (r.explore m (r.run round m (some f.claim)) s' {} f.candidates) :=
            approximates_explore hn fun b => ih hn
          rcases he with he | he
          · rw [he]
            exact .inl rfl
          · rw [he]
            split
            · exact .refl _
            · exact .refl _
            · split
              · exact ih hn
              · exact .refl _
        · exact .refl _

/-- More steps keep what the exploration of a fork leads to. -/
theorem approximates_branches {f : Fork} (hn : n ≤ m) :
    Approximates (r.explore n (r.run round n (some f.claim)) s {} f.candidates)
      (r.explore m (r.run round m (some f.claim)) s {} f.candidates) :=
  approximates_explore hn fun _ => approximates_run hn

theorem approximates_declareAll {drafts : List Draft} {catalog : Catalog} (hn : n ≤ m) :
    Approximates (r.declareAll n catalog drafts) (r.declareAll m catalog drafts) := by
  induction drafts generalizing catalog with
  | nil => exact .refl _
  | cons d drafts ih =>
    refine (Approximates.refl _).bind fun _ => ?_
    exact (approximates_budgeted fun _ => Catalog.register?_mono hn).bind fun _ => ih

/-- **More steps keep the outcome of a round.** -/
theorem approximates_resolve {drafts : List Draft} (hn : n ≤ m) :
    Approximates (r.resolve n drafts round) (r.resolve m drafts round) := by
  refine (approximates_declareAll hn).bind fun catalog => ?_
  split
  · exact .refl _
  · exact (approximates_run hn).bind fun _ => .refl _

theorem step_of_le {p : Progress} (hn : n ≤ m) (h : r.step n round goal s = .ok p) :
    r.step m round goal s = .ok p :=
  ((approximates_step hn).eq (by simp [h])).symm.trans h

theorem run_of_le {x : Except Interrupt RunEnd} (hn : n ≤ m) (hx : x ≠ .error .outOfFuel)
    (h : r.run round n goal s = x) : r.run round m goal s = x :=
  ((approximates_run hn).eq (h ▸ hx)).symm.trans h

theorem declareAll_of_le {drafts : List Draft} {catalog catalog' : Catalog} (hn : n ≤ m)
    (h : r.declareAll n catalog drafts = .ok catalog') :
    r.declareAll m catalog drafts = .ok catalog' :=
  ((approximates_declareAll hn).eq (by simp [h])).symm.trans h

theorem openBranch_of_le {x : String × State} (hn : n ≤ m) (h : r.openBranch n s draft = .ok x) :
    r.openBranch m s draft = .ok x :=
  ((approximates_openBranch hn).eq (by simp [h])).symm.trans h

theorem explore_of_le {f : Fork} {found : Branches} (hn : n ≤ m)
    (h : r.explore n (r.run round n (some f.claim)) s {} f.candidates = .ok (.explored found)) :
    r.explore m (r.run round m (some f.claim)) s {} f.candidates = .ok (.explored found) :=
  ((approximates_branches hn).eq (by simp [h])).symm.trans h

/-! ## How a run ends -/

/-- The run ends this way, given enough steps. -/
def Ends (r : Resolver) (round : Nat) (goal : Option Claim) (s : State)
    (x : Except Interrupt RunEnd) : Prop :=
  x ≠ .error .outOfFuel ∧ ∃ n, r.run round n goal s = x

theorem Ends.unique {x y : Except Interrupt RunEnd} (hx : Ends r round goal s x)
    (hy : Ends r round goal s y) : x = y := by
  obtain ⟨hx, n, hn⟩ := hx
  obtain ⟨hy, m, hm⟩ := hy
  exact (run_of_le (Nat.le_max_left n m) hx hn).symm.trans (run_of_le (Nat.le_max_right n m) hy hm)

theorem ends_of_step_error {e : Error} (h : r.step n round goal s = .error (.failure e)) :
    Ends r round goal s (.error (.failure e)) :=
  ⟨nofun, n + 1, by simp [run, h]⟩

theorem ends_of_step_restart {q : RestartRequest}
    (h : r.step n round goal s = .ok (.restart q)) : Ends r round goal s (.ok (.restart q)) :=
  ⟨nofun, n + 1, by simp [run, h]⟩

theorem ends_of_step_satisfied (h : r.step n round goal s = .ok (.satisfied t)) :
    Ends r round goal s (.ok (.satisfied t)) :=
  ⟨nofun, n + 1, by simp [run, h]⟩

/-- A run that goes on with that from another state ends as that does. -/
theorem ends_iff_of_run_succ {x : Except Interrupt RunEnd}
    (h : ∀ m, n ≤ m → r.run round (m + 1) goal s = r.run round m goal t) :
    Ends r round goal s x ↔ Ends r round goal t x := by
  refine and_congr_right fun hx => ⟨fun ⟨m, hm⟩ => ⟨max n m, ?_⟩, fun ⟨m, hm⟩ => ⟨max n m + 1, ?_⟩⟩
  · rw [← h _ (Nat.le_max_left n m)]
    exact run_of_le (Nat.le_succ_of_le (Nat.le_max_right n m)) hx hm
  · rw [h _ (Nat.le_max_left n m)]
    exact run_of_le (Nat.le_max_right n m) hx hm

/-- **A run ends as it does after its first step.** -/
theorem ends_iff_of_next {x : Except Interrupt RunEnd}
    (h : r.step n round goal s = .ok (.next t)) :
    Ends r round goal s x ↔ Ends r round goal t x :=
  ends_iff_of_run_succ (n := n) fun m hn => by simp [run, step_of_le hn h]

/-- **A run ends as it does after a fork**, once its branches are explored. -/
theorem ends_iff_of_adopt {x : Except Interrupt RunEnd} {s' : State} {f : Fork} {found : Branches}
    (h : r.step n round goal s = .ok (.fork f s')) (hl : s'.forkDepth < r.settings.maxForkDepth)
    (he : r.explore n (r.run round n (some f.claim)) s' {} f.candidates = .ok (.explored found))
    (ht : found.settle f s' = .ok t) : Ends r round goal s x ↔ Ends r round goal t x :=
  ends_iff_of_run_succ (n := n) fun m hn => by
    simp [run, step_of_le hn h, hl, explore_of_le hn he, ht]

/-! ## How a round ends -/

variable {drafts : List Draft} {catalog : Catalog} {y : Except Interrupt Resolution}

/-- How a round ends whose run ends this way. -/
def resolution (round : Nat) : RunEnd → Resolution
  | .finished s | .satisfied s => .resolved (s.toPlan round)
  | .restart q => .restart q

/-- The outcome of the round is this one, given enough steps. -/
def Yields (r : Resolver) (drafts : List Draft) (round : Nat) (y : Except Interrupt Resolution) :
    Prop :=
  y ≠ .error .outOfFuel ∧ ∃ n, r.resolve n drafts round = y

/-- If a round comes to the state outside forks, then its outcome is this one. -/
def Concludes (r : Resolver) (round : Nat) (s : State) (y : Except Interrupt Resolution) : Prop :=
  ∃ x, Ends r round none s x ∧ x.map (resolution round) = y

theorem concludes_congr (h : ∀ x, Ends r round none s x ↔ Ends r round none t x) :
    Concludes r round s y ↔ Concludes r round t y :=
  exists_congr fun x => and_congr_left fun _ => h x

theorem resolve_eq_map (hc : r.declareAll n ∅ drafts = .ok catalog)
    (hr : catalog.roots.isEmpty = false) : r.resolve n drafts round =
      (r.run round n none (.start catalog)).map (resolution round) := by
  simp only [resolve, hc, hr, bind, Except.bind]
  cases r.run round n none (.start catalog) with
  | error i => rfl
  | ok e => cases e <;> rfl

/-- A round begins with the roots. -/
theorem yields_iff_of_start (hc : r.declareAll n ∅ drafts = .ok catalog)
    (hr : catalog.roots.isEmpty = false) :
    Yields r drafts round y ↔ Concludes r round (.start catalog) y := by
  constructor
  · rintro ⟨hy, m, hm⟩
    have hmax := ((approximates_resolve (Nat.le_max_right n m)).eq (hm ▸ hy)).symm.trans hm
    rw [resolve_eq_map (declareAll_of_le (Nat.le_max_left n m) hc) hr] at hmax
    refine ⟨_, ⟨fun hx => hy ?_, max n m, rfl⟩, hmax⟩
    rw [← hmax, map_eq_outOfFuel, hx]
  · rintro ⟨x, ⟨hx, m, hm⟩, rfl⟩
    refine ⟨fun h => hx (map_eq_outOfFuel.1 h), max n m, ?_⟩
    rw [resolve_eq_map (declareAll_of_le (Nat.le_max_left n m) hc) hr,
      run_of_le (Nat.le_max_right n m) hx hm]

/-- **The outcome of a round is that of any state to which it comes outside forks.** -/
theorem Reachable.yields_iff (hs : Reachable r drafts round none s) :
    Yields r drafts round y ↔ Concludes r round s y := by
  generalize hg : none = goal at hs
  induction hs with
  | start hc hr => exact yields_iff_of_start hc hr
  | next hs h ih =>
    subst hg
    exact (ih rfl).trans (concludes_congr fun _ => ends_iff_of_next h)
  | satisfied hs h ih =>
    subst hg
    obtain ⟨d, hd⟩ := goal_of_step_satisfied h
    cases hd
  | branch => cases hg
  | adopt hs h hl he ht ih =>
    subst hg
    exact (ih rfl).trans (concludes_congr fun _ => ends_iff_of_adopt h hl he ht)

end Resolver

end Wiring
