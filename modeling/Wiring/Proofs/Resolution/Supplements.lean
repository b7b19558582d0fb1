import Wiring.Proofs.Resolution.Course
/-!
# What extensions add

A move by which an extension adds a draft says nothing of the draft. But a draft is added only if it
is valid, satisfies the claim for which the extension was asked, and nothing else did
(`Resolver.Supplement`). All else that a resolver does, it does without its extensions too
(`Resolver.unextended`).

A `Resolver.Deed` is one or the other. Turns are made of deeds (`Resolver.Turn.deeds`), so what
deeds keep holds in all states of all runs, whatever the extensions answer.
-/

namespace Wiring

namespace Resolver

/-- The resolver without its extensions. -/
def unextended (r : Resolver) : Resolver := { r with extensions := [] }

/-- A draft of an extension is declared for a claim that waits. -/
inductive Supplement (r : Resolver) (s : State) : State → Prop
  /-- It is valid and can satisfy the claim, for which there is no declaration. -/
  | accept {n : Nat} {f : ComponentFrame} {below : List Frame} {c : Claim} {cs : List Claim}
      {name : String} {draft : Draft} {d : Declaration} {catalog : Catalog}
      (hs : s.stack = .component f :: below) (hf : f.pending = c :: cs)
      (hn : s.declaredMatches c = [])
      (hv : { draft with origin := .extension name }.validate = .ok ())
      (hc : r.canSatisfy? n { draft with origin := .extension name } c = some true)
      (hr : s.catalog.register? r.types n { draft with origin := .extension name } =
        some (d, catalog)) (he : r.extensions ≠ []) : Supplement r s { s with catalog }

/-- What is done to a state. -/
inductive Deed (r : Resolver) (s : State) : State → Prop
  /-- Something that is done without extensions too. -/
  | move {t : State} (h : r.unextended.Move s t) : Deed r s t
  /-- An extension adds a draft. -/
  | supplement {t : State} (h : r.Supplement s t) : Deed r s t

/-- Any number of deeds. -/
abbrev Deeds (r : Resolver) : State → State → Prop := Relation.ReflTransGen r.Deed

variable {r : Resolver} {n round : Nat} {goal : Option Claim} {s t : State} {c : Claim}
  {q : Source} {d : Decision} {draft : Draft}

/-! ## Deeds are moves -/

theorem Answers.extended {e : Edge} (h : Answers r.unextended s c e) : Answers r s c e := by
  cases h with
  | finished hk hm => exact .finished hk hm
  | declared hk hd hi hf => exact .declared hk hd hi hf
  | absent hk hd ht => exact .absent hk hd ht
  | every hk ha => exact .every hk ha
  | token hk => exact .token hk

theorem Supplies.extended (h : Supplies r.unextended s c draft) : Supplies r s c draft := by
  cases h with
  | specialized ht ha hu => exact .specialized ht ha hu
  | wrapper h => exact .wrapper h
  | final h ha => exact .final h ha

theorem Move.extended (h : r.unextended.Move s t) : r.Move s t := by
  cases h with
  | skip hs hd => exact .skip hs hd
  | expand hs hd => exact .expand hs hd
  | forward hs hw hf hk ht hp hr => exact .forward hs hw hf hk ht hp hr
  | bypass hs hw hf hk ht hp => exact .bypass hs hw hf hk ht hp
  | commit hs hb hf => exact .commit hs hb hf
  | answer hs hb hf he => exact .answer hs hb hf he.extended
  | await hs hb hf hd => exact .await hs hb hf hd
  | supply hs hb hf hn hd hr hk => exact .supply hs hb hf hn hd.extended hr hk
  | extend hr he => exact absurd rfl he
  | nest depth => exact .nest depth

theorem Deed.toMove (h : r.Deed s t) : r.Move s t := by
  cases h with
  | move h => exact h.extended
  | supplement h =>
    cases h with
    | accept hs hf hn hv hc hr he => exact .extend hr he

/-! ## What is done without extensions -/

/-- What decides a claim: what is there without extensions, or an extension. -/
theorem decide_cases (h : r.decide n round s q c = .ok d) :
    r.unextended.decide n round s q c = .ok d ∨
      s.declaredMatches c = [] ∧ r.fromExtensions n round s q c = .ok (some d) := by
  rcases cases_of_decide h with h₁ | ⟨h₁, h₂ | ⟨h₂, h₃ | h₄⟩⟩
  · exact .inl (bind_eq_ok.2 ⟨_, h₁, rfl⟩)
  · exact .inl (bind_eq_ok.2 ⟨_, h₁, bind_eq_ok.2 ⟨_, h₂, rfl⟩⟩)
  · exact .inl (bind_eq_ok.2 ⟨_, h₁, bind_eq_ok.2 ⟨_, h₂, bind_eq_ok.2 ⟨_, h₃, rfl⟩⟩⟩)
  · exact .inr ⟨declaredMatches_of_declarations h₁, h₄⟩

theorem supplement_of_extensions {f : ComponentFrame} {below : List Frame} {cs : List Claim}
    (hs : s.stack = .component f :: below) (hf : f.pending = c :: cs)
    (hn : s.declaredMatches c = [])
    (h : r.fromExtensions n round { s with stack := below } q c = .ok (some d)) :
    (∃ catalog, d = .retry catalog ∧ r.Supplement s { s with catalog }) ∨
      ∃ request, d = .restart request := by
  obtain ⟨o, ho, h⟩ := bind_eq_ok.1 h
  have he : r.extensions ≠ [] ∨ o = none := by
    refine or_iff_not_imp_left.2 fun he => ?_
    rw [not_not.1 he] at ho
    cases ho
    rfl
  split at h
  · obtain ⟨x, ha, h⟩ := bind_eq_ok.1 h
    cases h
    obtain ⟨x, catalog, rfl, hv, hc, hr⟩ := accepted ha
    refine .inl ⟨catalog, rfl, .accept hs hf hn hv hc hr (he.resolve_right (by simp))⟩
  · cases h
    exact .inr ⟨_, rfl⟩
  · cases h
  · cases h

/-- What works on a claim: what is there without extensions, or an extension. -/
theorem advance_cases {f : ComponentFrame} {below : List Frame} {cs : List Claim} {p : Progress}
    (hs : s.stack = .component f :: below) (hf : f.pending = c :: cs)
    (h : r.advance n round { s with stack := below } f c = .ok p) :
    r.unextended.advance n round { s with stack := below } f c = .ok p ∨
      (∃ t, p = .next t ∧ r.Supplement s t) ∨ ∃ request, p = .restart request := by
  unfold advance at h
  split at h <;> rename_i hall
  · exact .inl (by rw [advance, if_pos hall]; exact h)
  · split at h <;> rename_i htok
    · exact .inl (by rw [advance, if_neg hall, if_pos htok]; exact h)
    · obtain ⟨d, hd, h⟩ := bind_eq_ok.1 h
      rcases decide_cases hd with hd | ⟨hn, hd⟩
      · refine .inl ?_
        rw [advance, if_neg hall, if_neg htok]
        exact bind_eq_ok.2 ⟨d, hd, h⟩
      · rcases supplement_of_extensions hs hf hn hd with ⟨catalog, rfl, hsup⟩ | ⟨request, rfl⟩
        · cases h
          rw [← hs]
          exact .inr (.inl ⟨_, rfl, hsup⟩)
        · cases h
          exact .inr (.inr ⟨_, rfl⟩)

/-- What makes a step: what is there without extensions, or an extension. -/
theorem step_cases {p : Progress} (h : r.step n round goal s = .ok p) :
    r.unextended.step n round goal s = .ok p ∨ (∃ t, p = .next t ∧ r.Supplement s t) ∨
      ∃ request, p = .restart request := by
  unfold step at h
  split at h
  · next hs => exact .inl (by simp only [step, hs]; exact h)
  · next hs => exact .inl (by simp only [step, hs]; exact h)
  · next f below hs =>
    simp only [step, hs]
    obtain ⟨o, ho, h⟩ := bind_eq_ok.1 h
    cases o with
    | some t => exact .inl (bind_eq_ok.2 ⟨_, ho, h⟩)
    | none =>
      cases hf : f.pending with
      | nil =>
        simp only [hf] at h ⊢
        exact .inl (bind_eq_ok.2 ⟨_, ho, h⟩)
      | cons c cs =>
        simp only [hf] at h ⊢
        exact (advance_cases hs hf h).imp_left fun h => bind_eq_ok.2 ⟨_, ho, h⟩

theorem Moves.deeds (h : Moves r.unextended s t) : Deeds r s t :=
  Relation.ReflTransGen.mono (fun _ _ => Deed.move) s t h

/-- **Turns are made of deeds.** -/
theorem Turn.deeds (h : r.Turn round s t) : Deeds r s t := by
  cases h with
  | step h =>
    rcases h with h | h
    · rcases step_cases h with h | ⟨t, e, ht⟩ | ⟨q, e⟩
      · exact (moves_of_step_next h).deeds
      · cases e
        exact .single (.supplement ht)
      · cases e
    · rcases step_cases h with h | ⟨t, e, ht⟩ | ⟨q, e⟩
      · exact (moves_of_step_satisfied h).deeds
      · cases e
      · cases e
  | enter h hd hb =>
    rcases step_cases h with h | ⟨t, e, ht⟩ | ⟨q, e⟩
    · obtain ⟨rfl, hf⟩ := forksAt_of_step h
      exact (moves_of_openBranch hf hd hb).deeds
    · cases e
    · cases e
  | leave depth => exact .single (.move (.nest depth))

theorem Course.deeds (h : Course r round s t) : Deeds r s t := by
  induction h with
  | refl => exact .refl
  | tail _ h ih => exact ih.trans h.deeds

/-- **What deeds keep holds after any number of deeds.** -/
theorem Deeds.invariant {I : State → Prop}
    (hd : ∀ s t, s.Identified r.types → I s → r.Deed s t → I t) (h : Deeds r s t)
    (hi : s.Identified r.types) (hs : I s) : I t := by
  have hboth : t.Identified r.types ∧ I t := by
    induction h with
    | refl => exact ⟨hi, hs⟩
    | tail _ h ih => exact ⟨ih.1.move h.toMove, hd _ _ ih.1 ih.2 h⟩
  exact hboth.2

end Resolver

end Wiring
