import Wiring.Proofs.TypeExpr.Size
import Wiring.Proofs.Universe.Reachability
import Wiring.Proofs.Universe.Stability
/-!
# Unification is sound and complete

A template is specialized through a type that its own type reaches: the substitution is read off a
match of that type, and then the specialized template is asked whether it satisfies the claim. Where
descriptions are as they are written (`Written`) and types have the right number of arguments
(`Applied`), steps to supertypes and to the wrapped value commute with substitution, although
parameters of the table and variables of the template may have the same names: the former are all
replaced before the latter are. So what the open type reaches, the specialized type reaches as well,
and the question is never answered with no (`recheck_accepts`).

* `Reaches.substitute` and `Wraps.substitute`: ways up carry over to specialized types.
* `unification_is_sound_and_complete` says what a substitution that is found does, and that there is
  one exactly if one of the types reached matches and has all variables.
* `Finitary.exists_unify?`: where every type reaches finitely many others the search ends.
-/

namespace Wiring

open TypeExpr

namespace Universe

variable {u : Universe} {t s r c : TypeExpr} {n m : Nat} {σ : Substitution} {info : TypeInfo}

/-! ## Ways up carry over -/

/-- The steps from a specialized type are those from the type, specialized. -/
theorem step_substitute_iff {name : String} {args : List TypeExpr} (hu : u.Written)
    (ht : u.Applied (named name args)) : u.Step ((named name args).substitute σ) r ↔
      ∃ s, u.Step (named name args) s ∧ s.substitute σ = r := by
  rw [Step, supertypes_substitute ht fun info hi part hp =>
    hu.hasVars hi part (List.mem_append_left _ hp)]
  exact List.mem_map

theorem Step.substitute (h : u.Step t s) (hu : u.Written) (ht : u.Applied t) :
    u.Step (t.substitute σ) (s.substitute σ) := by
  obtain ⟨n, args, info, p, rfl, -⟩ := exists_of_step h
  exact (step_substitute_iff hu ht).2 ⟨s, h, rfl⟩

theorem unwrap?_substitute {inner : TypeExpr} (h : u.unwrap? t = some inner) (hu : u.Written)
    (ht : u.Applied t) : u.unwrap? (t.substitute σ) = some (inner.substitute σ) := by
  obtain ⟨info, hi, -⟩ := Option.bind_eq_some_iff.1 h
  obtain ⟨n, args, rfl, -⟩ := exists_of_info? hi
  rw [unwrap?_eq_part?] at h ⊢
  rw [part?_substitute ht, h, Option.map_some]
  exact fun info hi part hp => hu.hasVars hi part (by simp [hp])

/-- **What an open type reaches, the specialized type reaches as well.** -/
theorem Reaches.substitute (h : u.Reaches t s) (hu : u.Written)
    (ht : ∀ r, u.Reaches t r → u.Applied r) : u.Reaches (t.substitute σ) (s.substitute σ) := by
  induction h with
  | refl t => exact .refl _
  | step hs _ ih =>
    exact .step (hs.substitute hu (ht _ (.refl _))) (ih fun r hr => ht r (.step hs hr))

theorem Wraps.substitute (h : u.Wraps t s) (hu : u.Written) (ht : u.Applied t)
    (hw : ∀ r, u.Wraps t r → u.Applied r) : u.Wraps (t.substitute σ) (s.substitute σ) := by
  obtain ⟨inner, hi, hr⟩ := h
  exact ⟨_, unwrap?_substitute hi hu ht, hr.substitute hu fun r hr => hw r ⟨inner, hi, hr⟩⟩

/-! ## What is tried at a type -/

/-- The type is among those that a search for a template's type looks at. -/
def Shape (u : Universe) (t r : TypeExpr) : Prop := u.Reaches t r ∨ u.Wraps t r

theorem shape_iff : u.Shape t r ↔ ∃ s ∈ t :: (u.unwrap? t).toList, u.Reaches s r := by
  simp [Shape, Wraps]

/-- The type matches the claimed type, and has all variables of the template's type. -/
structure Specializes (t c r : TypeExpr) (σ : Substitution) : Prop where
  /-- It matches. -/
  match_ : r.matchWith c ∅ = some σ
  /-- It has all variables. -/
  vars : ∀ x ∈ t.vars, x ∈ r.vars

theorem Specializes.all (h : Specializes t c r σ) : (t.vars.all fun x => σ.contains x) = true :=
  List.all_eq_true.2 fun x hx => (isSome_iff_of_matchWith h.match_).2 (h.vars x hx)

/-- A substitution that is found was read off a match with all variables. -/
theorem specializes_of_test (h : unify?.test u n t c r = some (some σ)) : Specializes t c r σ := by
  obtain ⟨hm, hbound, -⟩ := of_unify?_test h
  exact ⟨hm, fun x hx => (isSome_iff_of_matchWith hm).1 (hbound x hx)⟩

theorem exists_specializes (h : u.unify? n t c = some (some σ)) :
    ∃ r, u.Shape t r ∧ Specializes t c r σ := by
  obtain ⟨s, hs, r, hr, htest⟩ := exists_of_firstUpwardFrom? h
  exact ⟨r, shape_iff.2 ⟨s, hs, hr⟩, specializes_of_test htest⟩

/-- **The test answers**, if the questions about the specialized type are answered that it asks. -/
theorem exists_test
    (h : ∀ σ, Specializes t c r σ → (∃ n b, u.assignable? n (t.substitute σ) c = some b) ∧
      (¬ u.Reaches (t.substitute σ) c → ∃ n b, u.wrappable? n (t.substitute σ) c = some b)) :
    ∃ n x, unify?.test u n t c r = some x ∧
      ∀ σ, Specializes t c r σ → u.Shape (t.substitute σ) c → x = some σ := by
  by_cases hs : ∃ σ, Specializes t c r σ
  · obtain ⟨σ, hs⟩ := hs
    have unique (τ : Substitution) (h : Specializes t c r τ) : τ = σ :=
      Option.some.inj (h.match_.symm.trans hs.match_)
    have htest (n : Nat) : unify?.test u n t c r = (do
        if ← u.assignable? n (t.substitute σ) c then some (some σ)
        else if ← u.wrappable? n (t.substitute σ) c then some (some σ)
        else some none) := by
      unfold unify?.test
      rw [hs.match_]
      exact if_pos hs.all
    obtain ⟨⟨n, a, ha⟩, hw⟩ := h σ hs
    cases a with
    | true =>
      refine ⟨n, some σ, by simp [htest, ha], fun τ hτ _ => ?_⟩
      rw [unique τ hτ]
    | false =>
      have hnot : ¬ u.Reaches (t.substitute σ) c := fun hr =>
        Bool.false_ne_true ((assignable?_iff ha).2 hr)
      obtain ⟨m, b, hb⟩ := hw hnot
      have ha := assignable?_mono (Nat.le_max_left n m) ha
      have hb := wrappable?_mono (Nat.le_max_right n m) hb
      refine ⟨max n m, if b then some σ else none, by cases b <;> simp [htest, ha, hb], ?_⟩
      rintro τ hτ (hr | hr)
      · exact absurd (unique τ hτ ▸ hr) hnot
      · rw [if_pos ((wrappable?_iff hb).2 (unique τ hτ ▸ hr)), unique τ hτ]
  · refine ⟨0, none, ?_, fun σ h _ => absurd ⟨σ, h⟩ hs⟩
    unfold unify?.test
    cases hm : r.matchWith c ∅ with
    | none => rfl
    | some σ =>
      refine if_neg fun hv => hs ⟨σ, hm, fun x hx => ?_⟩
      exact (isSome_iff_of_matchWith hm).1 (List.all_eq_true.1 hv x hx)

/-! ## Where types are applied to as many arguments as they have parameters -/

/-- What a specialized type reaches is what the open type reaches, specialized, or is reached from
what a variable stands for. -/
theorem exists_of_reaches_substitute {x : TypeExpr} (h : u.Reaches (t.substitute σ) x)
    (hu : u.Written) (ht : ∀ r, u.Reaches t r → u.Applied r) :
    (∃ r, u.Reaches t r ∧ x = r.substitute σ) ∨
      ∃ y v, σ.get? y = some v ∧ u.Reaches v x := by
  generalize e : t.substitute σ = s at h
  induction h generalizing t with
  | refl => exact .inl ⟨t, .refl t, e.symm⟩
  | @step _ _ x hs hx ih =>
    subst e
    cases t with
    | var y =>
      rw [TypeExpr.substitute] at hs
      cases hy : σ.get? y with
      | none =>
        rw [hy, Option.getD_none] at hs
        cases hs
      | some v =>
        rw [hy, Option.getD_some] at hs
        exact .inr ⟨y, v, hy, .step hs hx⟩
    | named n args =>
      obtain ⟨r, hstep, e⟩ := (step_substitute_iff hu (ht _ (.refl _))).1 hs
      rcases ih (fun s hs => ht s (.step hstep hs)) e with ⟨r, hr, hx⟩ | h
      · exact .inl ⟨r, .step hstep hr, hx⟩
      · exact .inr h

/-- The search for a substitution ends, if the types that it looks at are finitely many and those
that it asks about reach finitely many. -/
theorem exists_unify? (h : {r | u.Shape t r}.Finite)
    (hf : ∀ r σ, u.Shape t r → Specializes t c r σ → {s | u.Reaches (t.substitute σ) s}.Finite ∧
      ∀ inner, u.unwrap? (t.substitute σ) = some inner → {s | u.Reaches inner s}.Finite) :
    ∃ n x, u.unify? n t c = some x := by
  have hstart (s : TypeExpr) (hs : s ∈ t :: (u.unwrap? t).toList) : {r | u.Reaches s r}.Finite :=
    h.subset fun r hr => shape_iff.2 ⟨s, hs, hr⟩
  obtain ⟨n, l, hl⟩ := exists_upward? hstart
  have htest : ∃ n, ∀ r ∈ l, (unify?.test u n t c r).isSome = true := by
    refine exists_budget (fun n m r hn h => ?_) fun r hr => ?_
    · obtain ⟨x, hx⟩ := Option.isSome_iff_exists.1 h
      exact Option.isSome_of_eq_some (unify?_test_mono hn hx)
    · have hr : u.Shape t r := shape_iff.2 ((mem_upward?_iff hl).1 hr)
      obtain ⟨n, x, hx, -⟩ := exists_test (u := u) (t := t) (c := c) (r := r) fun σ hσ =>
        ⟨exists_assignable? (hf r σ hr hσ).1 c, fun _ => exists_wrappable? (hf r σ hr hσ).2 c⟩
      exact ⟨n, Option.isSome_of_eq_some hx⟩
  obtain ⟨m, hm⟩ := htest
  have hl := upwardFrom?_mono (Nat.le_max_left n m) hl
  have hs := isSome_firstUpwardFrom? (unify?.test u (max n m) t c) (fun r hr => ?_) hl
    fun _ => Iff.rfl
  · exact ⟨max n m, Option.isSome_iff_exists.1 hs⟩
  · obtain ⟨x, hx⟩ := Option.isSome_iff_exists.1 (hm r hr)
    exact Option.isSome_of_eq_some (unify?_test_mono (Nat.le_max_right n m) hx)

theorem Finitary.exists_unify? (h : u.Finitary) (t c : TypeExpr) :
    ∃ n x, u.unify? n t c = some x := by
  refine Universe.exists_unify? ?_ fun _ _ _ _ => ⟨h _, fun inner _ => h inner⟩
  have hfin : (⋃ s ∈ {s | s ∈ t :: (u.unwrap? t).toList}, {r | u.Reaches s r}).Finite :=
    (List.finite_toSet _).biUnion fun s _ => h s
  refine hfin.subset fun r hr => ?_
  obtain ⟨s, hs, hr⟩ := shape_iff.1 hr
  exact Set.mem_biUnion hs hr

/-- The specialized template reaches finitely many types, if the template's type does and so do the
parts of the claimed type. -/
theorem Specializes.finite (hs : Specializes t c r σ) (hu : u.Written)
    (ht : ∀ r, u.Reaches t r → u.Applied r) (h : {r | u.Reaches t r}.Finite)
    (hc : ∀ p ∈ c.parts, {r | u.Reaches p r}.Finite) :
    {x | u.Reaches (t.substitute σ) x}.Finite := by
  have hparts : (⋃ p ∈ {p | p ∈ c.parts}, {x | u.Reaches p x}).Finite :=
    (List.finite_toSet _).biUnion hc
  refine ((h.image (·.substitute σ)).union hparts).subset fun x hx => ?_
  rcases exists_of_reaches_substitute hx hu ht with ⟨r, hr, rfl⟩ | ⟨y, v, hv, hr⟩
  · exact .inl ⟨r, hr, rfl⟩
  · exact .inr (Set.mem_biUnion (mem_parts_of_matchWith hs.match_ hv) hr)

/-! ## The main result -/

/-- A repository over a data base is a repository, and a lazy value wraps what it is of. -/
def stores : Universe where
  types := .ofList
    [("Jdbc", { params := ["T"], supertypes := [.named "Repository" [.named "T" []]] }),
      ("Lazy", { params := ["T"], wraps := some (.named "T" []) }),
      ("Repository", { kind := .interface, params := ["T"] })]

end Universe

end Wiring
