import Wiring.Proofs.Resolution.Course
import Wiring.Proofs.Resolution.Cycles
import Wiring.Proofs.Resolution.Fuel
import Wiring.Proofs.Universe.Unification
/-!
# Steps without extensions

Without extensions, each step of the stack ends where searches do (`Resolver.halts_step`), and it
changes the stack, unless it finds it empty or leads to a fork (`Resolver.progress_of_step`).
-/

namespace Wiring

namespace Resolver

variable {r : Resolver} {n round : Nat} {goal : Option Claim} {s t : State} {d q : Source}
  {c : Claim} {draft : Draft}

/-! ## Each step ends -/

theorem halts_buildNew (hf : r.types.Finitary) : Halts fun n => r.buildNew n s draft := by
  obtain ⟨n, x, hx⟩ := hf.exists_registerSource? s.catalog draft
  exact ⟨n, by simp [buildNew, hx, budgeted, bind, Except.bind, pure, Except.pure]⟩

theorem halts_nothing (hf : r.types.Finitary) : Halts fun n => r.fromNothing n s c := by
  by_cases hk : c.kind.isNullable = true
  · exact ⟨0, by simp [fromNothing, hk]⟩
  · cases ho : r.types.optionalInner? c.type with
    | some inner =>
      obtain ⟨n, hn⟩ : Halts fun n => r.buildNew n s (optionalDraft c inner) := halts_buildNew hf
      exact ⟨n, by simpa [fromNothing, hk, ho] using hn⟩
    | none =>
      cases ha : r.types.autoConstructor? c.type with
      | none => exact ⟨0, by simp [fromNothing, hk, ho, ha]⟩
      | some a =>
        by_cases hacc : c.tags.Accepts a.tags
        · obtain ⟨n, hn⟩ : Halts fun n => r.buildNew n s (finalDraft c a) := halts_buildNew hf
          exact ⟨n, by simpa [fromNothing, hk, ho, ha, hacc] using hn⟩
        · exact ⟨0, by simp [fromNothing, hk, ho, ha, hacc]⟩

theorem checked_ne_outOfFuel {α : Type} (x : Except Error α) :
    checked x ≠ .error .outOfFuel := by
  cases x <;> simp [checked]

theorem fromDeclarations_ne_outOfFuel : fromDeclarations s q c ≠ .error .outOfFuel := by
  intro h
  rcases bind_eq_error.1 h with h | ⟨m?, -, h⟩
  · exact checked_ne_outOfFuel _ h
  · cases m? with
    | some m => cases h
    | none =>
      rcases bind_eq_error.1 h with h | ⟨d?, -, h⟩
      · exact checked_ne_outOfFuel _ h
      · cases d? with
        | none => cases h
        | some d =>
          dsimp only at h
          split at h <;> cases h

theorem fromTemplates_eq_none (ht : s.catalog.templates = []) :
    r.fromTemplates n s c = .ok none := by
  unfold fromTemplates
  rw [ht]
  rfl

/-- All that is tried is answered within some number of steps, if each of it is. -/
theorem exists_mapM {α β : Type} {f : Nat → α → Option β} {l : List α}
    (hmono : ∀ {n m}, n ≤ m → ∀ a b, f n a = some b → f m a = some b)
    (h : ∀ a ∈ l, ∃ n b, f n a = some b) : ∃ n bs, l.mapM (f n) = some bs := by
  induction l with
  | nil => exact ⟨0, [], rfl⟩
  | cons a l ih =>
    obtain ⟨n, b, hb⟩ := h a List.mem_cons_self
    obtain ⟨m, bs, hbs⟩ := ih fun x hx => h x (List.mem_cons_of_mem _ hx)
    refine ⟨max n m, b :: bs, ?_⟩
    rw [List.mapM_cons, hmono (Nat.le_max_left n m) a b hb,
      mapM_mono (hmono (Nat.le_max_right n m)) hbs]
    rfl

/-- The templates for a claim can be found. -/
theorem exists_specializations? {u : Universe} (hf : u.Finitary) (c : Claim)
    (ts : List Declaration) : ∃ n ds, c.specializations? u n ts = some ds := by
  obtain ⟨n, found, hn⟩ : ∃ n found, ts.mapM (fun d => d.specialize? u n c) = some found := by
    refine exists_mapM (fun hn _ _ => Declaration.specialize?_mono hn) fun t _ => ?_
    by_cases ha : c.tags.Accepts t.tags
    · obtain ⟨n, x, hx⟩ := hf.exists_unify? t.type c.type
      exact ⟨n, x.map t.instantiate, by simp [Declaration.specialize?, ha, hx]⟩
    · exact ⟨0, none, by simp [Declaration.specialize?, ha]⟩
  exact ⟨n, c.narrow (found.filterMap id), Option.bind_eq_some_iff.2 ⟨found, hn, rfl⟩⟩

theorem halts_templates (hf : r.types.Finitary) : Halts fun n => r.fromTemplates n s c := by
  obtain ⟨n, ds, hds⟩ := exists_specializations? hf c s.catalog.templates
  match ds, hds with
  | [], hds =>
    exact ⟨n, by simp [fromTemplates, hds, budgeted, bind, Except.bind, pure, Except.pure]⟩
  | [draft], hds =>
    obtain ⟨m, hm⟩ : Halts fun n => r.buildNew n s draft := halts_buildNew hf
    have hds := Claim.specializations?_mono (Nat.le_max_left n m) hds
    refine ⟨max n m, fun h => hm ?_⟩
    simp only [fromTemplates, hds, budgeted, bind, Except.bind] at h
    exact ((approximates_buildNew (Nat.le_max_right n m)).eq hm).trans h
  | _ :: _ :: _, hds =>
    exact ⟨n, by simp [fromTemplates, hds, budgeted, bind, Except.bind, pure, Except.pure]⟩

theorem halts_decide (hf : r.types.Finitary) (hx : r.extensions = []) :
    Halts fun n => r.decide n round s q c := by
  obtain ⟨n, hn⟩ : Halts fun n => r.fromTemplates n s c := halts_templates hf
  obtain ⟨m, hm⟩ : Halts fun n => r.fromNothing n s c := halts_nothing hf
  refine ⟨max n m, fun h => ?_⟩
  rcases cases_of_decide_error h with h | ⟨-, h | ⟨-, h | ⟨-, h | ⟨-, h⟩⟩⟩⟩
  · exact fromDeclarations_ne_outOfFuel h
  · exact hn (((approximates_templates (Nat.le_max_left n m)).eq hn).trans h)
  · exact hm (((approximates_nothing (Nat.le_max_right n m)).eq hm).trans h)
  · rw [fromExtensions_eq_none hx] at h
    cases h
  · cases h

/-- Without extensions, a claim on one instance is answered, or leads to a component that is to be
built, or to several templates that are to be tried. -/
theorem direct_or_fork_of_decide {d : Decision} (hx : r.extensions = [])
    (h : r.decide n round s q c = .ok d) :
    Decision.Direct d ∨ s.catalog.templates ≠ [] ∧ ∃ ds, d = .fork ds := by
  rcases cases_of_decide h with h | ⟨-, h | ⟨-, h | h⟩⟩
  · exact .inl (direct_of_declarations h)
  · have ht : s.catalog.templates ≠ [] := fun ht => by
      rw [fromTemplates_eq_none ht] at h
      cases h
    exact (direct_or_fork_of_templates h).imp_right fun ⟨ds, _, e⟩ => ⟨ht, ds, e⟩
  · exact .inl (direct_of_nothing h)
  · rw [fromExtensions_eq_none hx] at h
    cases h

theorem halts_proxyFor {claimed : TypeExpr} (hf : r.types.Finitary) :
    Halts fun n => r.proxyFor n s d claimed := by
  obtain ⟨n, x, hx⟩ := hf.exists_registerSource? s.catalog (r.proxyDraft d claimed)
  refine ⟨n, fun h => ?_⟩
  unfold proxyFor at h
  split at h
  · cases h
  · simp [hx, budgeted, bind, Except.bind, pure, Except.pure] at h

theorem halts_breakCycle (hf : r.types.Finitary) : Halts fun n => r.breakCycle n s d := by
  match hs : s.stack with
  | [] | .root _ :: _ => exact ⟨0, by simp [breakCycle, hs]⟩
  | .component w :: below =>
    cases hw : w.pending with
    | nil => exact ⟨0, by simp [breakCycle, hs, hw]⟩
    | cons c cs =>
      obtain ⟨n, hn⟩ : Halts fun n => r.proxyFor n s d c.type := halts_proxyFor hf
      refine ⟨n, fun h => ?_⟩
      unfold breakCycle at h
      simp only [hs, hw] at h
      split at h
      · split at h
        · rcases bind_eq_error.1 h with h | ⟨x, -, h⟩
          · exact hn h
          · cases h
        · cases h
      · cases h

theorem halts_advance {f : ComponentFrame} (hf : r.types.Finitary) (hx : r.extensions = []) :
    Halts fun n => r.advance n round s f c := by
  obtain ⟨n, hn⟩ : Halts fun n => r.decide n round s f.source c := halts_decide hf hx
  refine ⟨n, fun h => ?_⟩
  unfold advance at h
  split at h
  · cases h
  · split at h
    · cases h
    · rcases bind_eq_error.1 h with h | ⟨d, -, h⟩
      · exact hn h
      · cases d <;> cases h

/-- **Each step ends**, if all searches do. -/
theorem halts_step (hf : r.types.Finitary) (hx : r.extensions = []) :
    Halts fun n => r.step n round goal s := by
  match hs : s.stack with
  | [] => exact ⟨0, by simp [step, hs]⟩
  | .root d :: below => exact ⟨0, by simp [step, hs]⟩
  | .component f :: below =>
    by_cases hb : Frame.ClosesCycle f.source.id below
    · obtain ⟨n, hn⟩ := halts_breakCycle (s := { s with stack := below }) (d := f.source) hf
      refine ⟨n, fun h => ?_⟩
      unfold step at h
      rw [hs] at h
      rcases bind_eq_error.1 h with h | ⟨o, ho, h⟩
      · exact hn h
      · cases o with
        | some t => cases h
        | none => exact not_closesCycle_of_breakCycle ho hb
    · cases hp : f.pending with
      | nil =>
        refine ⟨0, fun h => ?_⟩
        unfold step at h
        rw [hs] at h
        simp [breakCycle_eq_none (s := { s with stack := below }) hb, hp, bind, Except.bind, pure,
          Except.pure] at h
      | cons c cs =>
        obtain ⟨n, hn⟩ : Halts fun n => r.advance n round { s with stack := below } f c :=
          halts_advance hf hx
        exact ⟨n, fun h => hn ((step_eq_advance hs hb hp).symm.trans h)⟩

/-! ## Each step changes the stack -/

theorem stack_push_ne {stack : List Frame}
    (h : (Frame.ids stack).length ≤ (Frame.ids s.stack).length) :
    (s.push d).stack ≠ stack := by
  rintro rfl
  rw [State.ids_push, List.length_append, List.length_cons] at h
  omega

theorem answer_ne {f : ComponentFrame} {below : List Frame} (e : Edge) :
    Frame.component (f.answer e) :: below ≠ .component f :: below := by
  intro h
  have he : f.edges ++ [e] = f.edges :=
    congrArg ComponentFrame.edges (Frame.component.inj (List.cons.inj h).1)
  simp at he

theorem stack_ne_of_breakCycle {f : ComponentFrame}
    (h : r.breakCycle n s d = .ok (some t)) : t.stack ≠ .component f :: s.stack := by
  unfold breakCycle at h
  split at h
  · next w below hs =>
    split at h
    · split at h
      · split at h
        · obtain ⟨⟨i, s'⟩, -, h⟩ := bind_eq_ok.1 h
          cases h
          intro e
          have hl := congrArg List.length e
          simp [hs] at hl
        · cases h
      · cases h
    · cases h
  · cases h

/-- Working on a claim changes the stack, or leads to a fork. -/
theorem progress_of_advance {f : ComponentFrame} {p : Progress} (hx : r.extensions = [])
    (h : r.advance n round s f c = .ok p) :
    (∃ t, p = .next t ∧ t.stack ≠ .component f :: s.stack) ∨
      s.catalog.templates ≠ [] ∧ ∃ fork t, p = .fork fork t := by
  unfold advance at h
  split at h
  · cases h
    refine .inl ⟨_, rfl, ?_⟩
    unfold collect
    split
    · exact stack_push_ne (s := { s with stack := .component f :: s.stack }) le_rfl
    · exact answer_ne _
  · split at h
    · cases h
      exact .inl ⟨_, rfl, answer_ne _⟩
    · obtain ⟨d, hd, h⟩ := bind_eq_ok.1 h
      rcases direct_or_fork_of_decide hx hd with hd | ⟨ht, ds, rfl⟩
      · cases hd with
        | bind e =>
          cases h
          exact .inl ⟨_, rfl, answer_ne e⟩
        | build x catalog =>
          cases h
          exact .inl ⟨_, rfl, stack_push_ne
            (s := { s with catalog, stack := .component f :: s.stack }) le_rfl⟩
      · cases h
        exact .inr ⟨ht, _, _, rfl⟩

/-- **Each step changes the stack**, or finds it empty, or leads to a fork. -/
theorem progress_of_step {p : Progress} (hx : r.extensions = [])
    (h : r.step n round goal s = .ok p) :
    p = .finished ∨ (∃ t, (p = .next t ∨ p = .satisfied t) ∧ t.stack ≠ s.stack) ∨
      s.catalog.templates ≠ [] ∧ ∃ f t, p = .fork f t := by
  unfold step at h
  split at h
  · cases h
    exact .inl rfl
  · next d below hs =>
    cases h
    refine .inr (.inl ⟨_, .inl rfl, ?_⟩)
    rw [hs]
    split
    · exact List.ne_cons_self
    · exact stack_push_ne (s := { s with stack := below }) le_rfl
  · next f below hs =>
    obtain ⟨o, ho, h⟩ := bind_eq_ok.1 h
    rw [hs]
    cases o with
    | some t =>
      cases h
      exact .inr (.inl ⟨t, .inl rfl, stack_ne_of_breakCycle (s := { s with stack := below }) ho⟩)
    | none =>
      dsimp only at h
      split at h
      · cases h
        refine .inr (.inl ⟨{ s with stack := below }.commit f.source f.edges, ?_,
          List.ne_cons_self⟩)
        split
        · exact .inr rfl
        · exact .inl rfl
      · rcases progress_of_advance (s := { s with stack := below }) hx h with ⟨t, rfl, ht⟩ | h
        · exact .inr (.inl ⟨t, .inl rfl, ht⟩)
        · exact .inr (.inr h)

/-- Without templates, each step outside forks changes the stack, or finds it empty. -/
theorem stack_ne_of_step {p : Progress} (ht : s.catalog.templates = []) (hx : r.extensions = [])
    (h : r.step n round none s = .ok p) :
    p = .finished ∨ ∃ t, p = .next t ∧ t.stack ≠ s.stack := by
  rcases progress_of_step hx h with rfl | ⟨t, rfl | rfl, hne⟩ | ⟨hne, -⟩
  · exact .inl rfl
  · exact .inr ⟨t, rfl, hne⟩
  · obtain ⟨d, hd⟩ := goal_of_step_satisfied h
    cases hd
  · exact absurd ht hne

end Resolver

end Wiring
