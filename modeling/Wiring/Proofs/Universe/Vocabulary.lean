import Wiring.Proofs.Universe.Ground
/-!
# What types are built from

A type is `TypeExpr.Over` some type names and some variables if it is built from nothing else. What
a pattern's variables stand for is part of the type it was matched with, so a specialized template
speaks of no names that neither the template nor the claim speaks of.

* `TypeExpr.Over.of_matchWith`: matching brings in nothing new.
* `TypeExpr.Over.substitute`: neither does replacing variables by what they stand for.
* `Universe.over_of_unify?`: what a template is specialized with is over what the claim is over, and
  all variables of the template's type are replaced.
-/

namespace Wiring

namespace TypeExpr

/-- The type is built from type names in `N` and variables in `V`. -/
inductive Over (N V : String → Prop) : TypeExpr → Prop
  /-- It is a variable. -/
  | var {x : String} (h : V x) : Over N V (.var x)
  /-- It is a named type with arguments. -/
  | named {n : String} {args : List TypeExpr} (hn : N n) (ha : ∀ a ∈ args, Over N V a) :
      Over N V (.named n args)

variable {N N' V V' : String → Prop} {t p : TypeExpr} {n x : String} {args : List TypeExpr}
  {σ σ' : Substitution}

theorem over_var : Over N V (.var x) ↔ V x := ⟨fun | .var h => h, .var⟩

theorem over_named : Over N V (.named n args) ↔ N n ∧ ∀ a ∈ args, Over N V a :=
  ⟨fun | .named hn ha => ⟨hn, ha⟩, fun ⟨hn, ha⟩ => .named hn ha⟩

theorem Over.mono (h : Over N V t) (hN : ∀ x, N x → N' x) (hV : ∀ x, V x → V' x) :
    Over N' V' t := by
  induction h with
  | var h => exact .var (hV _ h)
  | named hn _ ih => exact .named (hN _ hn) ih

theorem over_true (t : TypeExpr) : Over (fun _ => True) (fun _ => True) t := by
  induction t using ind with
  | var x => exact .var trivial
  | named n args ih => exact .named trivial ih

/-- A type has no variables exactly if it is over none. -/
theorem over_iff_hasVars : Over (fun _ => True) (fun _ => False) t ↔ t.hasVars = false := by
  induction t using ind with
  | var x => simp [over_var, hasVars, varOccurrences]
  | named n args ih =>
    rw [over_named, hasVars_named]
    exact ⟨fun h a ha => (ih a ha).1 (h.2 a ha), fun h => ⟨trivial, fun a ha => (ih a ha).2 (h a ha)⟩⟩

theorem Over.hasVars (h : Over N (fun _ => False) t) : t.hasVars = false :=
  over_iff_hasVars.1 (h.mono (fun _ _ => trivial) fun _ => id)

theorem mem_vars : x ∈ t.vars ↔ x ∈ t.varOccurrences := List.mem_eraseDups

mutual

/-- The names of types that occur at any depth, from left to right. -/
def typeNames : TypeExpr → List String
  | .var _ => []
  | .named n as => n :: typeNamesAll as

/-- The names of types in a list of arguments. -/
def typeNamesAll : List TypeExpr → List String
  | [] => []
  | t :: ts => typeNames t ++ typeNamesAll ts

end

theorem typeNamesAll_eq_flatMap (ts : List TypeExpr) : typeNamesAll ts = ts.flatMap typeNames := by
  induction ts with
  | nil => rfl
  | cons t ts ih => rw [typeNamesAll, ih, List.flatMap_cons]

/-- A type is built from the names that occur in it. -/
theorem Over.of_typeNames {t : TypeExpr} (h : t.Over N V) (hN : ∀ x ∈ t.typeNames, N' x) :
    t.Over N' V := by
  induction h with
  | var h => exact .var h
  | @named n args _ _ ih =>
    rw [typeNames, typeNamesAll_eq_flatMap] at hN
    refine .named (hN n List.mem_cons_self) fun a ha => ih a ha fun x hx => ?_
    exact hN x (List.mem_cons_of_mem _ (List.mem_flatMap.2 ⟨a, ha, hx⟩))

/-- A type is over its own variables. -/
theorem over_vars (h : Over N V t) : Over N (· ∈ t.vars) t := by
  simp only [mem_vars]
  induction h with
  | var h => exact .var (by simp [varOccurrences])
  | @named n args hn _ ih =>
    refine .named hn fun a ha => (ih a ha).mono (fun _ => id) fun x hx => ?_
    rw [varOccurrences, varOccurrencesAll_eq_flatMap]
    exact List.mem_flatMap.2 ⟨a, ha, hx⟩

/-- **Replacing variables** brings in what becomes of them, and nothing else. -/
theorem Over.substitute_of_vars (h : Over N V t)
    (hσ : ∀ x, V x → Over N V' (TypeExpr.substitute σ (.var x))) : Over N V' (t.substitute σ) := by
  induction h with
  | var h => exact hσ _ h
  | named hn _ ih =>
    rw [TypeExpr.substitute, substituteAll_eq_map]
    refine .named hn fun a ha => ?_
    obtain ⟨b, hb, rfl⟩ := List.mem_map.1 ha
    exact ih b hb

/-- Replacing all variables brings in what they stand for. -/
theorem Over.substitute (h : Over N V t)
    (hσ : ∀ x, V x → ∃ v, σ.get? x = some v ∧ Over N V' v) : Over N V' (t.substitute σ) := by
  refine h.substitute_of_vars fun x hx => ?_
  obtain ⟨v, hv, ho⟩ := hσ x hx
  rw [TypeExpr.substitute, hv]
  exact ho

end TypeExpr

/-- What the variables stand for is over the names and variables. -/
def Substitution.Over (N V : String → Prop) (σ : Substitution) : Prop :=
  ∀ x v, σ.get? x = some v → v.Over N V

namespace TypeExpr

theorem over_empty : Substitution.Over N V ∅ := fun _ _ h => nomatch h

mutual

/-- **Matching a pattern against a type** binds variables to parts of the type. -/
theorem Over.of_matchWith {p t : TypeExpr} {σ σ' : Substitution} (ht : Over N V t)
    (hσ : σ.Over N V) (h : p.matchWith t σ = some σ') : σ'.Over N V := by
  match p, t with
  | .var x, t =>
    rw [matchWith] at h
    split at h
    · split at h
      · cases h
        exact hσ
      · cases h
    · cases h
      intro y v hv
      rw [NameMap.get?_insert] at hv
      split at hv
      · cases hv
        exact ht
      · exact hσ y v hv
  | .named n ps, .named m cs =>
    rw [matchWith] at h
    split at h
    · exact over_of_matchAll (over_named.1 ht).2 hσ h
    · cases h
  | .named n ps, .var x => cases h

theorem over_of_matchAll {ps ts : List TypeExpr} {σ σ' : Substitution} (ht : ∀ t ∈ ts, Over N V t)
    (hσ : σ.Over N V) (h : matchAll ps ts σ = some σ') : σ'.Over N V := by
  match ps, ts with
  | [], [] =>
    cases h
    exact hσ
  | p :: ps, t :: ts =>
    rw [matchAll] at h
    obtain ⟨σ₁, h₁, h⟩ := Option.bind_eq_some_iff.1 h
    have hσ₁ := Over.of_matchWith (ht t List.mem_cons_self) hσ h₁
    exact over_of_matchAll (fun t hm => ht t (List.mem_cons_of_mem _ hm)) hσ₁ h
  | [], _ :: _ => cases h
  | _ :: _, [] => cases h

end

end TypeExpr

namespace Universe

variable {N V : String → Prop} {u : Universe} {p t : TypeExpr} {σ : Substitution} {k : Nat}

/-- **What a template is specialized with** is part of the claimed type, and replaces all variables
of the template's type. -/
theorem over_of_unify? (h : u.unify? k p t = some (some σ)) (ht : t.Over N V) :
    σ.Over N V ∧ ∀ x ∈ p.vars, ∃ v, σ.get? x = some v ∧ v.Over N V := by
  obtain ⟨-, -, shape, -, h⟩ := exists_of_firstUpwardFrom? h
  obtain ⟨hm, hbound, -⟩ := of_unify?_test h
  have hσ : σ.Over N V := ht.of_matchWith TypeExpr.over_empty hm
  refine ⟨hσ, fun x hx => ?_⟩
  obtain ⟨v, hv⟩ := Option.isSome_iff_exists.1 (hbound x hx)
  exact ⟨v, hv, hσ x v hv⟩

/-- The type inside an optional wrapper is part of the wrapper. -/
theorem over_of_optionalInner? {inner : TypeExpr} (h : u.optionalInner? t = some inner)
    (ht : t.Over N V) : inner.Over N V := by
  obtain ⟨info, -, h⟩ := Option.bind_eq_some_iff.1 h
  cases ht with
  | var => cases h
  | @named n args hn ha =>
    dsimp only [TypeExpr.args] at h
    split at h
    · split at h
      · cases h
        exact ha inner List.mem_cons_self
      · cases h
    · cases h

end Universe

end Wiring
