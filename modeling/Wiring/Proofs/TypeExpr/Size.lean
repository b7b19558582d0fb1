import Mathlib.Algebra.BigOperators.Ring.List
import Mathlib.Algebra.Order.BigOperators.Group.List
import Mathlib.Algebra.Order.Ring.Nat
import Mathlib.Data.Set.Finite.Lattice
import Mathlib.Data.Set.Finite.List
import Wiring.Proofs.TypeExpr.Matching
/-!
# The size of a type

`TypeExpr.size` counts the names and variables of a type expression, `TypeExpr.parts` lists the
expressions in it at any depth.

* `TypeExpr.size_substitute_le`: replacing variables by types of a bounded size multiplies the size
  by no more than this bound.
* `TypeExpr.mem_parts_substitute`: what is in the result was there before, with its variables
  replaced, or is in what a variable stands for.
* `TypeExpr.mem_parts_of_matchWith`: what a match binds is part of the type that is matched.
* `TypeExpr.finite_bounded`: types of a bounded size over finitely many names are finitely many.
-/

namespace Wiring.TypeExpr

variable {t s p : TypeExpr} {n x : String} {args : List TypeExpr} {σ : Substitution} {b k : Nat}

mutual

/-- The number of names and variables, each as often as it occurs. -/
def size : TypeExpr → Nat
  | .var _ => 1
  | .named _ args => sizeAll args + 1

/-- The size of a list of arguments. -/
def sizeAll : List TypeExpr → Nat
  | [] => 0
  | t :: ts => size t + sizeAll ts

end

mutual

/-- The expressions in an expression at any depth, itself included. -/
def parts : TypeExpr → List TypeExpr
  | .var x => [.var x]
  | .named n args => .named n args :: partsAll args

/-- The expressions in a list of arguments. -/
def partsAll : List TypeExpr → List TypeExpr
  | [] => []
  | t :: ts => parts t ++ partsAll ts

end

@[simp] theorem size_var (x : String) : (var x).size = 1 := rfl

theorem sizeAll_eq_sum (ts : List TypeExpr) : sizeAll ts = (ts.map size).sum := by
  induction ts with
  | nil => rfl
  | cons t ts ih => rw [sizeAll, ih, List.map_cons, List.sum_cons]

theorem size_named : (named n args).size = (args.map size).sum + 1 := by
  rw [size, sizeAll_eq_sum]

theorem size_pos (t : TypeExpr) : 0 < t.size := by
  cases t with
  | var x => exact Nat.one_pos
  | named n args => exact Nat.succ_pos _

theorem size_lt_of_mem (h : t ∈ args) : t.size < (named n args).size := by
  rw [size_named]
  exact Nat.lt_succ_of_le (List.le_sum_of_mem (List.mem_map_of_mem h))

/-- An expression is larger than its number of arguments. -/
theorem length_lt_size : args.length < (named n args).size := by
  rw [size_named, Nat.lt_succ_iff]
  have h := List.length_le_sum_of_one_le (args.map size) fun i hi => by
    obtain ⟨a, -, rfl⟩ := List.mem_map.1 hi
    exact a.size_pos
  rwa [List.length_map] at h

/-- An expression is no larger than its arguments allow. -/
theorem size_le (h : ∀ a ∈ args, a.size ≤ b) : (named n args).size ≤ args.length * b + 1 := by
  rw [size_named]
  have h := List.sum_le_card_nsmul (args.map size) b fun i hi => by
    obtain ⟨a, ha, rfl⟩ := List.mem_map.1 hi
    exact h a ha
  rw [List.length_map, nsmul_eq_mul, Nat.cast_id] at h
  exact Nat.succ_le_succ h

/-! ## Parts -/

theorem partsAll_eq_flatMap (ts : List TypeExpr) : partsAll ts = ts.flatMap parts := by
  induction ts with
  | nil => rfl
  | cons t ts ih => rw [partsAll, ih, List.flatMap_cons]

theorem mem_parts_var : s ∈ (var x).parts ↔ s = var x := List.mem_singleton

theorem mem_parts_named :
    s ∈ (named n args).parts ↔ s = named n args ∨ ∃ a ∈ args, s ∈ a.parts := by
  rw [parts, partsAll_eq_flatMap, List.mem_cons, List.mem_flatMap]

theorem self_mem_parts (t : TypeExpr) : t ∈ t.parts := by
  cases t with
  | var x => exact mem_parts_var.2 rfl
  | named n args => exact mem_parts_named.2 (.inl rfl)

theorem size_le_of_mem_parts (h : s ∈ t.parts) : s.size ≤ t.size := by
  induction t using ind with
  | var x => rw [mem_parts_var.1 h]
  | named n args ih =>
    rcases mem_parts_named.1 h with rfl | ⟨a, ha, h⟩
    · exact Nat.le_refl _
    · exact (ih a ha h).trans (size_lt_of_mem ha).le

/-- What is in a part is in the whole. -/
theorem mem_parts_trans (h : s ∈ p.parts) (hp : p ∈ t.parts) : s ∈ t.parts := by
  induction t using ind with
  | var x => rwa [mem_parts_var.1 hp] at h
  | named n args ih =>
    rcases mem_parts_named.1 hp with rfl | ⟨a, ha, hp⟩
    · exact h
    · exact mem_parts_named.2 (.inr ⟨a, ha, ih a ha hp⟩)

theorem var_mem_parts : var x ∈ t.parts ↔ x ∈ t.varOccurrences := by
  induction t using ind with
  | var y => simp [parts, varOccurrences]
  | named n args ih =>
    simp only [mem_parts_named, mem_varOccurrences_named, reduceCtorEq, false_or]
    exact exists_congr fun a => and_congr_right fun ha => ih a ha

/-- **What is in a type after replacing variables** was there before, with its variables replaced,
or is in what one of them stands for. -/
theorem mem_parts_substitute (h : s ∈ (t.substitute σ).parts) :
    (∃ p ∈ t.parts, s = p.substitute σ) ∨
      ∃ x ∈ t.varOccurrences, ∃ v, σ.get? x = some v ∧ s ∈ v.parts := by
  induction t using ind with
  | var x =>
    cases hx : σ.get? x with
    | some v =>
      refine .inr ⟨x, by simp [varOccurrences], v, hx, ?_⟩
      rwa [substitute, hx] at h
    | none =>
      rw [substitute, hx, Option.getD_none, mem_parts_var] at h
      exact .inl ⟨var x, self_mem_parts _, by rw [h, substitute, hx, Option.getD_none]⟩
  | named n args ih =>
    rw [substitute_named] at h
    rcases mem_parts_named.1 h with rfl | ⟨a, ha, h⟩
    · exact .inl ⟨named n args, self_mem_parts _, substitute_named.symm⟩
    · obtain ⟨b, hb, rfl⟩ := List.mem_map.1 ha
      rcases ih b hb h with ⟨p, hp, e⟩ | ⟨x, hx, h⟩
      · exact .inl ⟨p, mem_parts_named.2 (.inr ⟨b, hb, hp⟩), e⟩
      · exact .inr ⟨x, mem_varOccurrences_named.2 ⟨b, hb, hx⟩, h⟩

/-- What becomes of a part is part of the result. -/
theorem substitute_mem_parts (h : s ∈ t.parts) : s.substitute σ ∈ (t.substitute σ).parts := by
  induction t using ind with
  | var x =>
    rw [mem_parts_var.1 h]
    exact self_mem_parts _
  | named n args ih =>
    rcases mem_parts_named.1 h with rfl | ⟨a, ha, h⟩
    · exact self_mem_parts _
    · rw [substitute_named]
      exact mem_parts_named.2 (.inr ⟨_, List.mem_map_of_mem ha, ih a ha h⟩)

/-- **What a match binds a variable to** is part of the type that is matched. -/
theorem mem_parts_of_matchWith {c v : TypeExpr} (h : p.matchWith c ∅ = some σ)
    (hv : σ.get? x = some v) : v ∈ c.parts := by
  have hx : x ∈ p.vars := (isSome_iff_of_matchWith h).1 (Option.isSome_of_eq_some hv)
  have hm := substitute_mem_parts (σ := σ) (var_mem_parts.2 (mem_vars.1 hx))
  rwa [substitute, hv, Option.getD_some, (matched_of_matchWith h).becomes.eq] at hm

/-! ## Bounds -/

/-- **Replacing variables by types of a bounded size** multiplies the size by no more than the
bound. -/
theorem size_substitute_le (hb : 0 < b)
    (h : ∀ x ∈ t.varOccurrences, ∀ v, σ.get? x = some v → v.size ≤ b) :
    (t.substitute σ).size ≤ t.size * b := by
  induction t using ind with
  | var x =>
    rw [size_var, Nat.one_mul, substitute]
    cases hx : σ.get? x with
    | none => exact hb
    | some v => exact h x (by simp [varOccurrences]) v hx
  | named n args ih =>
    have hargs (a : TypeExpr) (ha : a ∈ args) : (a.substitute σ).size ≤ a.size * b :=
      ih a ha fun x hx => h x (mem_varOccurrences_named.2 ⟨a, ha, hx⟩)
    rw [substitute_named, size_named, size_named, List.map_map, Nat.add_mul, Nat.one_mul,
      ← List.sum_map_mul_right]
    exact Nat.add_le_add (List.sum_le_sum hargs) hb

/-- **Types of a bounded size over finitely many names are finitely many.** -/
theorem finite_bounded (N V : List String) (k : Nat) :
    {t : TypeExpr | t.Over (· ∈ N) (· ∈ V) ∧ t.size ≤ k}.Finite := by
  induction k with
  | zero =>
    refine Set.finite_empty.subset fun t ht => ?_
    exact absurd ht.2 (Nat.not_le.2 t.size_pos)
  | succ k ih =>
    -- The arguments are fewer than the size, and each of them is smaller.
    let S : Set TypeExpr := {t | t.Over (· ∈ N) (· ∈ V) ∧ t.size ≤ k}
    have : Finite S := ih
    have hlists : (List.map ((↑) : S → TypeExpr) '' {l | l.length ≤ k}).Finite :=
      (List.finite_length_le S k).image _
    refine ((V.finite_toSet.image var).union ((N.finite_toSet.prod hlists).image
      fun e => named e.1 e.2)).subset fun t ht => ?_
    obtain ⟨ho, hk⟩ := ht
    cases ho with
    | var hx => exact .inl ⟨_, hx, rfl⟩
    | @named n args hn ha =>
      refine .inr ⟨(n, args), ⟨hn, ?_⟩, rfl⟩
      have hS (a : TypeExpr) (hm : a ∈ args) : a ∈ S :=
        ⟨ha a hm, Nat.le_of_lt_succ ((size_lt_of_mem hm).trans_le hk)⟩
      refine ⟨args.attach.map fun a => ⟨a.1, hS a.1 a.2⟩, ?_, ?_⟩
      · rw [Set.mem_ofPred_eq, List.length_map, List.length_attach]
        exact Nat.le_of_lt_succ (length_lt_size.trans_le hk)
      · rw [List.map_map]
        exact args.attach_map_subtype_val

end Wiring.TypeExpr
