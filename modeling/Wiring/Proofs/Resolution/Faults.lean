import Wiring.Proofs.Resolution.Moves
/-!
# What breaks off a step

A claim on one instance breaks off a resolution for one of three reasons, which `Resolver.Fails`
lists: it is ambiguous, what is declared for it is invalid, or the budget is too small
(`Interrupt.isFault`); an extension fails; or nothing satisfies it. Only in the last case does the
engine report it as unresolved, and then each way to satisfy it was tried and led nowhere.

Apart from that, a step fails only where a cycle is closed (`Resolver.fails_of_step`).
-/

namespace Wiring

/-- Whether it is a cycle that broke the resolution off. -/
def Interrupt.isCircular : Interrupt → Bool
  | .failure (.circular _ _) => true
  | .failure _ | .outOfFuel => false

/-- Whether a choice, a draft or the budget is at fault. -/
def Interrupt.isFault : Interrupt → Bool
  | .failure (.ambiguous _ _ _) | .failure (.invalidDeclaration _ _) | .outOfFuel => true
  | .failure _ => false

namespace Resolver

variable {r : Resolver} {s : State} {c : Claim} {q d : Source} {i : Interrupt} {n round : Nat}
  {goal : Option Claim}

/-! ## Faults -/

theorem isFault_of_budgeted {α : Type} {x : Option α} (h : budgeted x = .error i) :
    i.isFault = true := by
  cases x <;> cases h
  rfl

theorem isFault_of_settle {α : Type} {source : α → Source} {choice : Choice α}
    (h : checked (choice.settle c q source) = .error i) : i.isFault = true := by
  cases choice <;> cases h
  rfl

theorem isFault_of_validate {d : Draft} (h : checked d.validate = .error i) :
    i.isFault = true := by
  unfold Draft.validate at h
  split at h
  · cases h
    rfl
  · split at h <;> cases h <;> rfl

theorem isFault_of_declarations (h : fromDeclarations s q c = .error i) : i.isFault = true := by
  rcases bind_eq_error.1 h with h | ⟨m?, -, h⟩
  · exact isFault_of_settle h
  · cases m? with
    | some m => cases h
    | none =>
      rcases bind_eq_error.1 h with h | ⟨d?, -, h⟩
      · exact isFault_of_settle h
      · cases d? with
        | none => cases h
        | some d =>
          dsimp only at h
          split at h <;> cases h

theorem isFault_of_buildNew {d : Draft} (h : r.buildNew n s d = .error i) : i.isFault = true := by
  rcases bind_eq_error.1 h with h | ⟨x, -, h⟩
  · exact isFault_of_budgeted h
  · cases h

theorem isFault_of_templates (h : r.fromTemplates n s c = .error i) : i.isFault = true := by
  rcases bind_eq_error.1 h with h | ⟨ds, -, h⟩
  · exact isFault_of_budgeted h
  · split at h
    · cases h
    · exact isFault_of_buildNew h
    · cases h

theorem isFault_of_nothing (h : r.fromNothing n s c = .error i) : i.isFault = true := by
  unfold fromNothing at h
  split at h
  · cases h
  · split at h
    · exact isFault_of_buildNew h
    · split at h
      · split at h
        · exact isFault_of_buildNew h
        · cases h
      · cases h

theorem isFault_of_accept {name : String} {d : Draft} (h : r.accept n s c name d = .error i) :
    i.isFault = true := by
  rcases bind_eq_error.1 h with h | ⟨-, -, h⟩
  · exact isFault_of_validate h
  · rcases bind_eq_error.1 h with h | ⟨b, -, h⟩
    · exact isFault_of_budgeted h
    · split at h
      · rcases bind_eq_error.1 h with h | ⟨x, -, h⟩
        · exact isFault_of_budgeted h
        · cases h
      · cases h
        rfl

theorem isFault_of_openBranch {draft : Draft} (h : r.openBranch n s draft = .error i) :
    i.isFault = true := by
  rcases bind_eq_error.1 h with h | ⟨x, -, h⟩
  · exact isFault_of_budgeted h
  · cases h

/-! ## Extensions -/

theorem fromExtensions_eq_none (hx : r.extensions = []) :
    r.fromExtensions n round s q c = .ok none := by
  simp [fromExtensions, hx, Extension.consult, checked, bind, Except.bind, pure, Except.pure]

/-- Extensions that cannot be asked: one of them fails. -/
theorem exists_of_consult_error {es : List Extension} {x : Declaration} {e : Error}
    (h : Extension.consult es c x round = .error e) : ∃ y ∈ es, y.answer c x round = .error e := by
  induction es with
  | nil => cases h
  | cons y es ih =>
    rcases bind_eq_error.1 h with h | ⟨a, -, h⟩
    · exact ⟨y, List.mem_cons_self, h⟩
    · cases a with
      | noOpinion =>
        obtain ⟨z, hz, h⟩ := ih h
        exact ⟨z, List.mem_cons_of_mem _ hz, h⟩
      | supply | newRound => cases h

theorem fault_or_exists_of_extensions (h : r.fromExtensions n round s q c = .error i) :
    i.isFault = true ∨ ∃ x ∈ r.extensions, ∃ e, i = .failure e ∧
      x.answer c q.toDeclaration round = .error e := by
  rcases bind_eq_error.1 h with h | ⟨o, -, h⟩
  · cases hc : Extension.consult r.extensions c q.toDeclaration round with
    | ok o => simp [hc, checked] at h
    | error e =>
      rw [hc] at h
      cases h
      obtain ⟨x, hx, he⟩ := exists_of_consult_error hc
      exact .inr ⟨x, hx, e, rfl, he⟩
  · split at h
    · rcases bind_eq_error.1 h with h | ⟨d, -, h⟩
      · exact .inl (isFault_of_accept h)
      · cases h
    all_goals cases h

/-! ## Claims -/

/-- What breaks off a claim on one instance. -/
inductive Fails (r : Resolver) (n round : Nat) (s : State) (q : Source) (c : Claim) :
    Interrupt → Prop
  /-- A choice, a draft or the budget is at fault. -/
  | fault {i : Interrupt} (h : i.isFault = true) : Fails r n round s q c i
  /-- An extension fails. -/
  | extension {x : Extension} {e : Error} (hx : x ∈ r.extensions)
      (h : x.answer c q.toDeclaration round = .error e) : Fails r n round s q c (.failure e)
  /-- Nothing satisfies the claim. -/
  | exhausted (h₁ : fromDeclarations s q c = .ok none) (h₂ : r.fromTemplates n s c = .ok none)
      (h₃ : r.fromNothing n s c = .ok none) (h₄ : r.fromExtensions n round s q c = .ok none) :
      Fails r n round s q c (.failure (r.unresolved s q c))

/-- **A claim is unresolved if each way to satisfy it leads nowhere**; else a fault or an extension
breaks it off. -/
theorem fails_of_decide (h : r.decide n round s q c = .error i) : Fails r n round s q c i := by
  rcases cases_of_decide_error h with h | ⟨h₁, h | ⟨h₂, h | ⟨h₃, h | ⟨h₄, rfl⟩⟩⟩⟩
  · exact .fault (isFault_of_declarations h)
  · exact .fault (isFault_of_templates h)
  · exact .fault (isFault_of_nothing h)
  · rcases fault_or_exists_of_extensions h with h | ⟨x, hx, e, rfl, he⟩
    · exact .fault h
    · exact .extension hx he
  · exact .exhausted h₁ h₂ h₃ h₄

theorem fails_of_advance {f : ComponentFrame} (h : r.advance n round s f c = .error i) :
    c.kind.isSingle = true ∧ Fails r n round s f.source c i := by
  unfold advance at h
  split at h <;> rename_i hall
  · cases h
  · split at h <;> rename_i htok
    · cases h
    · rcases bind_eq_error.1 h with h | ⟨d, -, h⟩
      · exact ⟨by simp [ClaimKind.isSingle, hall, htok], fails_of_decide h⟩
      · cases d <;> cases h

/-! ## Steps -/

/-- The component that is worked on closes a cycle. -/
def ClosesCycle (s : State) : Prop :=
  ∃ f below, s.stack = .component f :: below ∧ Frame.ClosesCycle f.source.id below

theorem closesCycle_of_breakCycle (h : r.breakCycle n s d = .error i) :
    Frame.ClosesCycle d.id s.stack := by
  unfold breakCycle at h
  split at h
  · next w below hs =>
    split at h
    · next c cs hw =>
      split at h
      · next hp => exact ⟨w, below, hs, by simp [hw], State.isInProgress_iff.1 hp⟩
      · cases h
    · cases h
  · cases h

theorem isCircular_of_breakCycle (h : r.breakCycle n s d = .error i) :
    i = .outOfFuel ∨ i.isCircular = true := by
  unfold breakCycle at h
  split at h
  · split at h
    · split at h
      · split at h
        · refine .inl ?_
          rcases bind_eq_error.1 h with h | ⟨x, -, h⟩
          · unfold proxyFor at h
            split at h
            · cases h
            · rcases bind_eq_error.1 h with h | ⟨x, -, h⟩
              · revert h
                cases s.catalog.registerSource? r.types n (r.proxyDraft d _) with
                | none => exact fun h => (Except.error.inj h).symm
                | some x => exact nofun
              · cases h
          · cases h
        · cases h
          exact .inr rfl
      · cases h
    · cases h
  · cases h

/-- **A step is broken off by a claim on one instance, or where a cycle is closed.** -/
theorem fails_of_step (h : r.step n round goal s = .error i) :
    i = .outOfFuel ∨ (i.isCircular = true ∧ ClosesCycle s) ∨
      ∃ f below c cs, s.stack = .component f :: below ∧ f.pending = c :: cs ∧
        c.kind.isSingle = true ∧ Fails r n round { s with stack := below } f.source c i := by
  unfold step at h
  split at h
  · cases h
  · cases h
  · next f below hs =>
    rcases bind_eq_error.1 h with h | ⟨o, -, h⟩
    · exact (isCircular_of_breakCycle h).imp_right fun hc =>
        .inl ⟨hc, f, below, hs, closesCycle_of_breakCycle h⟩
    · cases o with
      | some t => cases h
      | none =>
        dsimp only at h
        split at h
        · cases h
        · next c cs hf => exact .inr (.inr ⟨f, below, c, cs, hs, hf, fails_of_advance h⟩)

end Resolver

end Wiring
