import Mathlib.Data.List.Forall2
import Mathlib.Logic.Relation
import Wiring.Proofs.TypeExpr.Size
/-!
# Matching is one-sided unification

A pattern matches a type if some substitution that extends what is known already turns the pattern
into the type, and what is found is the least such substitution: it binds the variables of the
pattern, and nothing else that was not bound before.

The order in which arguments are visited does not matter. A `TypeExpr.Matching` holds the patterns
that are still to be visited with the types they are to become, and each visit takes any of them. No
visit changes what solves the whole (`TypeExpr.Matching.Visit.solves_iff`), and as long as something
does, there is something to visit (`TypeExpr.Matching.Solves.exists_visit`). So all orders end with
the least solution, or all get stuck.

* `TypeExpr.exists_matchWith`: what can be matched is matched, and nothing is bound needlessly.
* `TypeExpr.matching_is_one_sided_unification` puts all this together.
-/

namespace Wiring

open Relation (ReflTransGen)

namespace TypeExpr

variable {p c : TypeExpr} {n m x : String} {ps cs : List TypeExpr} {σ τ τ' : Substitution}

/-! ## Extensions -/

theorem extends_antisymm (h : τ.Extends τ') (h' : τ'.Extends τ) : τ = τ' := by
  refine NameMap.ext_get? fun x => ?_
  cases hx : τ.get? x with
  | some v => exact (h' x v hx).symm
  | none =>
    cases hx' : τ'.get? x with
    | some v => exact (hx.symm.trans (h x v hx')).symm ▸ rfl
    | none => rfl

/-- To extend a substitution by a new binding is to extend it and to have the binding. -/
theorem extends_insert_iff (hx : σ.get? x = none) :
    τ.Extends (σ.insert x c) ↔ τ.Extends σ ∧ τ.get? x = some c := by
  constructor
  · intro h
    refine ⟨fun y v hy => h y v ?_, h x c (by simp)⟩
    rw [NameMap.get?_insert, if_neg, hy]
    rintro rfl
    rw [hx] at hy
    cases hy
  · rintro ⟨h, hc⟩ y v hy
    rw [NameMap.get?_insert] at hy
    split at hy
    · next e =>
      cases hy
      rw [e, hc]
    · exact h y v hy

/-! ## What a pattern becomes -/

theorem becomes_var : (var x).Becomes c τ ↔ τ.get? x = some c := by
  constructor
  · intro h
    obtain ⟨v, hv⟩ := Option.isSome_iff_exists.1 (h.binds x (by simp [varOccurrences]))
    have e := h.eq
    rw [substitute, hv, Option.getD_some] at e
    rw [hv, e]
  · intro h
    refine ⟨fun y hy => ?_, by rw [substitute, h, Option.getD_some]⟩
    obtain rfl : y = x := by simpa [varOccurrences] using hy
    rw [h]
    rfl

theorem not_becomes_var : ¬ (named n ps).Becomes (var x) τ := by
  intro h
  have e := h.eq
  rw [substitute_named] at e
  cases e

theorem becomes_cons : (named n (p :: ps)).Becomes (named m (c :: cs)) τ ↔
    p.Becomes c τ ∧ (named n ps).Becomes (named m cs) τ := by
  constructor
  · intro h
    have e := h.eq
    rw [substitute_named, List.map_cons] at e
    injection e with hn e
    injection e with hc hcs
    have hbinds (x : String) (hx : x ∈ p.varOccurrences ∨ x ∈ (named n ps).varOccurrences) :=
      h.binds x (mem_varOccurrences_cons.2 hx)
    exact ⟨⟨fun x hx => hbinds x (.inl hx), hc⟩, fun x hx => hbinds x (.inr hx),
      by rw [substitute_named, hn, hcs]⟩
  · rintro ⟨h, hs⟩
    obtain ⟨rfl, -⟩ := named.inj (substitute_named.symm.trans hs.eq)
    exact h.cons hs

/-- **A named pattern becomes** what has its name and the arguments that its own become. -/
theorem becomes_named : (named n ps).Becomes (named m cs) τ ↔
    n = m ∧ List.Forall₂ (fun p c => p.Becomes c τ) ps cs := by
  induction ps generalizing cs with
  | nil =>
    cases cs with
    | nil =>
      refine ⟨fun h => ⟨(named.inj (substitute_named.symm.trans h.eq)).1, .nil⟩, ?_⟩
      rintro ⟨rfl, -⟩
      exact becomes_nil
    | cons c cs =>
      refine ⟨fun h => ?_, fun h => nomatch h.2⟩
      cases substitute_named.symm.trans h.eq
  | cons p ps ih =>
    cases cs with
    | nil =>
      refine ⟨fun h => ?_, fun h => nomatch h.2⟩
      cases substitute_named.symm.trans h.eq
    | cons c cs =>
      rw [becomes_cons, ih, List.forall₂_cons, and_left_comm]

/-! ## What is found -/

mutual

/-- **What can be matched is matched**, and nothing is bound needlessly: what solves the match
extends what is found. -/
theorem exists_matchWith {p c : TypeExpr} {σ τ : Substitution} (hσ : τ.Extends σ)
    (h : p.Becomes c τ) : ∃ σ', p.matchWith c σ = some σ' ∧ τ.Extends σ' := by
  match p, c with
  | .var x, c =>
    rw [becomes_var] at h
    rw [matchWith]
    cases hx : σ.get? x with
    | none => exact ⟨_, rfl, (extends_insert_iff hx).2 ⟨hσ, h⟩⟩
    | some bound =>
      have e : bound = c := Option.some.inj ((hσ x bound hx).symm.trans h)
      exact ⟨σ, if_pos e, hσ⟩
  | .named n ps, .named m cs =>
    obtain ⟨e, hs⟩ := becomes_named.1 h
    rw [matchWith, if_pos e]
    exact exists_matchAll hσ hs
  | .named n ps, .var x => exact absurd h not_becomes_var

theorem exists_matchAll {ps cs : List TypeExpr} {σ τ : Substitution} (hσ : τ.Extends σ)
    (h : List.Forall₂ (fun p c => p.Becomes c τ) ps cs) :
    ∃ σ', matchAll ps cs σ = some σ' ∧ τ.Extends σ' := by
  match ps, cs, h with
  | [], [], _ => exact ⟨σ, rfl, hσ⟩
  | p :: ps, c :: cs, .cons h hs =>
    obtain ⟨σ₁, h₁, hσ₁⟩ := exists_matchWith hσ h
    obtain ⟨σ₂, h₂, hσ₂⟩ := exists_matchAll hσ₁ hs
    exact ⟨σ₂, by rw [matchAll, h₁, Option.bind_some, h₂], hσ₂⟩

end

/-! ## Any order -/

/-- The state of a match in which arguments are visited in any order. -/
structure Matching where
  /-- The patterns still to be visited, each with what it is to become. -/
  pending : List (TypeExpr × TypeExpr)
  /-- What variables stand for so far. -/
  bound : Substitution

namespace Matching

/-- One of the patterns is visited, whichever. -/
inductive Visit : Matching → Matching → Prop
  /-- A variable is bound. -/
  | bind {l l' : List (TypeExpr × TypeExpr)} {x : String} {c : TypeExpr} {σ : Substitution}
      (h : σ.get? x = none) : Visit ⟨l ++ (.var x, c) :: l', σ⟩ ⟨l ++ l', σ.insert x c⟩
  /-- A variable stands for the type already. -/
  | agree {l l' : List (TypeExpr × TypeExpr)} {x : String} {c : TypeExpr} {σ : Substitution}
      (h : σ.get? x = some c) : Visit ⟨l ++ (.var x, c) :: l', σ⟩ ⟨l ++ l', σ⟩
  /-- A named pattern is to become a type of the same name with as many arguments. -/
  | descend {l l' : List (TypeExpr × TypeExpr)} {n : String} {ps cs : List TypeExpr}
      {σ : Substitution} (h : ps.length = cs.length) :
      Visit ⟨l ++ (.named n ps, .named n cs) :: l', σ⟩ ⟨l ++ (ps.zip cs ++ l'), σ⟩

/-- The substitution keeps what is bound, and turns all patterns into what they are to become. -/
structure Solves (τ : Substitution) (q : Matching) : Prop where
  /-- What is bound stays as it is. -/
  extends_ : τ.Extends q.bound
  /-- The patterns become what they are to become. -/
  becomes : ∀ e ∈ q.pending, e.1.Becomes e.2 τ

variable {q q' : Matching} {l l' : List (TypeExpr × TypeExpr)} {e : TypeExpr × TypeExpr}

/-- What solves a match turns some of the patterns into what they are to become, and solves the
match without them. -/
theorem solves_append_iff {l₁ : List (TypeExpr × TypeExpr)} : Solves τ ⟨l ++ (l₁ ++ l'), σ⟩ ↔
    (∀ e ∈ l₁, e.1.Becomes e.2 τ) ∧ Solves τ ⟨l ++ l', σ⟩ := by
  constructor
  · rintro ⟨hσ, h⟩
    obtain ⟨hl, h⟩ := List.forall_mem_append.1 h
    obtain ⟨hl₁, hl'⟩ := List.forall_mem_append.1 h
    exact ⟨hl₁, hσ, List.forall_mem_append.2 ⟨hl, hl'⟩⟩
  · rintro ⟨hl₁, hσ, h⟩
    obtain ⟨hl, hl'⟩ := List.forall_mem_append.1 h
    exact ⟨hσ, List.forall_mem_append.2 ⟨hl, List.forall_mem_append.2 ⟨hl₁, hl'⟩⟩⟩

theorem solves_cons_iff : Solves τ ⟨l ++ e :: l', σ⟩ ↔
    e.1.Becomes e.2 τ ∧ Solves τ ⟨l ++ l', σ⟩ := by
  rw [← List.singleton_append, solves_append_iff, List.forall_mem_singleton]

/-- **A visit changes nothing of what solves the match.** -/
theorem Visit.solves_iff (h : q.Visit q') : Solves τ q ↔ Solves τ q' := by
  cases h with
  | bind h =>
    rw [solves_cons_iff, becomes_var]
    constructor
    · rintro ⟨hx, hσ, hs⟩
      exact ⟨(extends_insert_iff h).2 ⟨hσ, hx⟩, hs⟩
    · rintro ⟨hσ, hs⟩
      obtain ⟨hσ, hx⟩ := (extends_insert_iff h).1 hσ
      exact ⟨hx, hσ, hs⟩
  | agree h =>
    rw [solves_cons_iff, becomes_var]
    exact ⟨And.right, fun hs => ⟨hs.extends_ _ _ h, hs⟩⟩
  | descend h =>
    rw [solves_cons_iff, becomes_named, solves_append_iff, List.forall₂_iff_zip, Prod.forall]
    exact and_congr_left fun _ => ⟨fun hs a b => hs.2.2, fun hs => ⟨rfl, h, hs _ _⟩⟩

/-- **As long as something solves the match**, there is something to visit, or nothing left. -/
theorem Solves.exists_visit (h : Solves τ q) : q.pending = [] ∨ ∃ q', q.Visit q' := by
  obtain ⟨l, σ⟩ := q
  cases l with
  | nil => exact .inl rfl
  | cons e l =>
    obtain ⟨p, c⟩ := e
    have hpc := h.becomes (p, c) List.mem_cons_self
    refine .inr ?_
    cases p with
    | var x =>
      cases hx : σ.get? x with
      | none => exact ⟨_, .bind (l := []) hx⟩
      | some v =>
        have e : v = c := Option.some.inj ((h.extends_ x v hx).symm.trans (becomes_var.1 hpc))
        exact ⟨_, .agree (l := []) (e ▸ hx)⟩
    | named n ps =>
      cases c with
      | var x => exact absurd hpc not_becomes_var
      | named m cs =>
        obtain ⟨rfl, hs⟩ := becomes_named.1 hpc
        exact ⟨_, .descend (l := []) hs.length_eq⟩

/-- The number of names and variables in the patterns still to be visited. -/
def size (q : Matching) : Nat := (q.pending.map fun e => e.1.size).sum

theorem Visit.size_lt (h : q.Visit q') : q'.size < q.size := by
  unfold Matching.size
  cases h with
  | bind h => simp
  | agree h => simp
  | descend h =>
    have hzip := congrArg (List.map TypeExpr.size) (List.map_fst_zip h.le)
    rw [List.map_map] at hzip
    simp only [List.map_append, List.map_cons, List.sum_append, List.sum_cons, size_named, ← hzip,
      Function.comp_def]
    omega

/-- In no order are there visits forever. -/
theorem wellFounded_visit : WellFounded fun q' q => Visit q q' :=
  Subrelation.wf (fun h => h.size_lt) (InvImage.wf size Nat.lt_wfRel.wf)

/-- Visits change nothing of what solves the match. -/
theorem solves_iff_of_visits (h : ReflTransGen Visit q q') : Solves τ q ↔ Solves τ q' := by
  induction h with
  | refl => rfl
  | tail _ h ih => exact ih.trans h.solves_iff

theorem solves_of_matchWith (h : p.matchWith c σ = some τ) : Solves τ ⟨[(p, c)], σ⟩ where
  extends_ := (matched_of_matchWith h).extends_
  becomes _ he := List.mem_singleton.1 he ▸ (matched_of_matchWith h).becomes

end Matching

/-! ## The main result -/

open Matching in
/-- **Matching is one-sided unification.** A pattern matches a type if some substitution that
extends the one given binds all variables of the pattern and turns it into the type. What is found
is such a substitution, binds nothing else that was not bound before, and is extended by every other
one.

In whichever order arguments are visited, the visits come to an end. If the pattern matches, then
nothing is left to visit in the end, and what is found is the same in all orders; otherwise all
orders get stuck. -/
theorem matching_is_one_sided_unification (p c : TypeExpr) (σ : Substitution) :
    ((p.matchWith c σ).isSome = true ↔ ∃ τ : Substitution, τ.Extends σ ∧ p.Becomes c τ) ∧
    (∀ τ, p.matchWith c σ = some τ → τ.Extends σ ∧ p.Becomes c τ ∧
      (∀ x, τ.contains x = true ↔ σ.contains x = true ∨ x ∈ p.vars) ∧
      ∀ τ' : Substitution, τ'.Extends σ → p.Becomes c τ' → τ'.Extends τ) ∧
    Acc (fun q' q => Visit q q') ⟨[(p, c)], σ⟩ ∧
    ∀ q, ReflTransGen Visit ⟨[(p, c)], σ⟩ q → (∀ q', ¬ q.Visit q') →
      ∀ τ, q = ⟨[], τ⟩ ↔ p.matchWith c σ = some τ := by
  have hleast (τ τ' : Substitution) (h : p.matchWith c σ = some τ) (hσ : τ'.Extends σ)
      (hp : p.Becomes c τ') : τ'.Extends τ := by
    obtain ⟨τ₁, h₁, hτ₁⟩ := exists_matchWith hσ hp
    rwa [Option.some.inj (h.symm.trans h₁)]
  refine ⟨⟨fun h => ?_, fun ⟨τ, hσ, hp⟩ => ?_⟩, fun τ h => ?_, wellFounded_visit.apply _,
    fun q hq hend => ?_⟩
  · obtain ⟨τ, h⟩ := Option.isSome_iff_exists.1 h
    exact ⟨τ, (matched_of_matchWith h).extends_, (matched_of_matchWith h).becomes⟩
  · obtain ⟨τ', h, -⟩ := exists_matchWith hσ hp
    exact Option.isSome_of_eq_some h
  · have hm := matched_of_matchWith h
    refine ⟨hm.extends_, hm.becomes, fun x => ?_, fun τ' => hleast τ τ' h⟩
    rw [mem_vars]
    refine ⟨hm.occurs x, fun hx => hx.elim (fun hx => ?_) (hm.becomes.binds x)⟩
    obtain ⟨v, hv⟩ := Option.isSome_iff_exists.1 hx
    exact Option.isSome_of_eq_some (hm.extends_ x v hv)
  · have hsolves (τ : Substitution) (h : p.matchWith c σ = some τ) : Solves τ q :=
      (solves_iff_of_visits hq).1 (solves_of_matchWith h)
    -- Where nothing is left, what is bound solves the match and is extended by what is found.
    have hfound (τ : Substitution) (e : q = ⟨[], τ⟩) : p.matchWith c σ = some τ := by
      have hτ : Solves τ q := e ▸ ⟨extends_refl, List.forall_mem_nil _⟩
      obtain ⟨hσ, hp⟩ := (solves_iff_of_visits hq).2 hτ
      obtain ⟨τ', h, hτ'⟩ := exists_matchWith hσ (hp (p, c) List.mem_cons_self)
      have hq' := (hsolves τ' h).extends_
      rw [e] at hq'
      rw [h, extends_antisymm hq' hτ']
    refine fun τ => ⟨hfound τ, fun h => ?_⟩
    obtain ⟨l, σ'⟩ := q
    obtain rfl : l = [] := (hsolves τ h).exists_visit.resolve_right fun ⟨q', hv⟩ => hend q' hv
    rw [Option.some.inj (h.symm.trans (hfound σ' rfl))]

open Matching in
/-- Where the second argument of a pair is visited first, the variable is bound there, and then
found to stand for the first argument as well. -/
theorem matching_is_one_sided_unification_pair :
    let p := named "Pair" [var "T", named "List" [var "T"]]
    let c := named "Pair" [named "Text" [], named "List" [named "Text" []]]
    let σ : Substitution := .ofList [("T", named "Text" [])]
    ReflTransGen Visit ⟨[(p, c)], ∅⟩ ⟨[], σ⟩ ∧ p.matchWith c ∅ = some σ ∧ p.Becomes c σ ∧
      ∀ τ : Substitution, p.Becomes c τ → τ.Extends σ := by
  intro p c σ
  have hvisits : ReflTransGen Visit ⟨[(p, c)], ∅⟩ ⟨[], σ⟩ :=
    .head (.descend (l := []) rfl) <|
      .head (.descend (l := [(var "T", named "Text" [])]) rfl) <|
        .head (.bind (l := [(var "T", named "Text" [])]) rfl) <|
          .single (.agree (l := []) rfl)
  have hend (q' : Matching) : ¬ Visit ⟨[], σ⟩ q' := fun h => Nat.not_lt_zero _ h.size_lt
  obtain ⟨-, hfound, -, horder⟩ := matching_is_one_sided_unification p c ∅
  have hmatch : p.matchWith c ∅ = some σ := (horder _ hvisits hend σ).1 rfl
  obtain ⟨-, hbecomes, -, hleast⟩ := hfound σ hmatch
  exact ⟨hvisits, hmatch, hbecomes, fun τ => hleast τ nofun⟩

end TypeExpr

end Wiring
