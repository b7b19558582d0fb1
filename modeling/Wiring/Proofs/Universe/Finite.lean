import Mathlib.Data.Set.Finite.Lattice
import Wiring.Proofs.Catalog
import Wiring.Proofs.Universe.Ground
/-!
# Searches end where types reach finitely many others

Generic supertypes may grow without bound, and then no budget suffices to list what a type reaches.
Where they reach finitely many, some budget does (`Universe.exists_upward?`): a type that was seen
before shortens the queue, and one that was not is one of finitely many. So in a table in which every
type reaches finitely many others (`Universe.Finitary`) every draft can be declared
(`Universe.Finitary.exists_registerSource?`). Tables in which no supertype depends on parameters are
of this kind (`Universe.finitary_of_hasVars`).
-/

namespace Wiring

namespace Universe

variable {u : Universe} {t s : TypeExpr} {seen queue start : List TypeExpr}

/-- Every type reaches finitely many types. -/
def Finitary (u : Universe) : Prop := ∀ t, {s | u.Reaches t s}.Finite

/-- **A table whose supertypes do not depend on parameters is finitary**: all of them together are
finitely many. -/
theorem finitary_of_hasVars (h : ∀ e ∈ u.types.toList, ∀ p ∈ e.2.supertypes,
    (p.bind e.2.params).hasVars = false) : u.Finitary := by
  let L := u.types.toList.flatMap fun e => e.2.supertypes.map (·.bind e.2.params)
  have hstep {t s : TypeExpr} (hs : u.Step t s) : s ∈ L := by
    obtain ⟨n, args, info, p, -, -, hm, hp, rfl⟩ := exists_of_step hs
    rw [TypeInfo.instantiate, TypeExpr.substitute_of_hasVars (h _ hm p hp)]
    exact List.mem_flatMap.2 ⟨_, hm, List.mem_map_of_mem hp⟩
  intro t
  refine (L.finite_toSet.insert t).subset fun s hs => ?_
  induction hs with
  | refl t => exact Set.mem_insert t _
  | step h _ ih => exact .inr (ih.elim (fun e => e ▸ hstep h) id)

theorem Reaches.tail {r : TypeExpr} (h : u.Reaches t r) (hs : u.Step r s) : u.Reaches t s := by
  induction h with
  | refl t => exact .step hs (.refl s)
  | step h _ ih => exact .step h (ih hs)

/-- **A search among finitely many types ends.** The types not seen yet become fewer, or they stay
the same and the queue becomes shorter. -/
theorem exists_upwardFrom? (C : Finset TypeExpr) (hC : ∀ t ∈ C, ∀ s, u.Step t s → s ∈ C)
    (seen queue : List TypeExpr) (hq : ∀ t ∈ queue, t ∈ C) :
    ∃ n l, u.upwardFrom? n seen queue = some l := by
  match queue, hq with
  | [], _ => exact ⟨0, seen, by rw [upwardFrom?]⟩
  | t :: queue, hq =>
    have ht : t ∈ C := hq t List.mem_cons_self
    have hqueue : ∀ s ∈ queue, s ∈ C := fun s hs => hq s (List.mem_cons_of_mem _ hs)
    by_cases hseen : t ∈ seen
    · obtain ⟨n, l, h⟩ := exists_upwardFrom? C hC seen queue hqueue
      exact ⟨n + 1, l, by rw [upwardFrom?, if_pos hseen, h]⟩
    · have hnew : ∀ s ∈ queue ++ u.supertypes t, s ∈ C := fun s hs =>
        (List.mem_append.1 hs).elim (hqueue s) (hC t ht s)
      obtain ⟨n, l, h⟩ := exists_upwardFrom? C hC (seen ++ [t]) (queue ++ u.supertypes t) hnew
      exact ⟨n + 1, l, by rw [upwardFrom?, if_neg hseen, h]⟩
termination_by ((C.filter (· ∉ seen)).card, queue.length)
decreasing_by
  · exact Prod.Lex.right _ (Nat.lt_succ_self _)
  · refine Prod.Lex.left _ _ (Finset.card_lt_card ?_)
    refine (Finset.ssubset_iff_of_subset fun x hx => ?_).2 ⟨t, by simp [ht, hseen], by simp⟩
    simp only [Finset.mem_filter, List.mem_append, List.mem_singleton, not_or] at hx ⊢
    exact ⟨hx.1, hx.2.1⟩

/-- What holds of each element of a list with some budget holds of all of them with one. -/
theorem exists_budget {α : Type} {P : Nat → α → Prop} {l : List α}
    (hmono : ∀ n m a, n ≤ m → P n a → P m a) (h : ∀ a ∈ l, ∃ n, P n a) : ∃ n, ∀ a ∈ l, P n a := by
  induction l with
  | nil => exact ⟨0, List.forall_mem_nil _⟩
  | cons a l ih =>
    obtain ⟨n, hn⟩ := h a List.mem_cons_self
    obtain ⟨m, hm⟩ := ih fun b hb => h b (List.mem_cons_of_mem _ hb)
    refine ⟨max n m, fun b hb => ?_⟩
    rcases List.mem_cons.1 hb with rfl | hb
    · exact hmono n _ b (Nat.le_max_left n m) hn
    · exact hmono m _ b (Nat.le_max_right n m) (hm b hb)

/-- **What some types reach can be listed**, if it is finite. -/
theorem exists_upward? (h : ∀ t ∈ start, {s | u.Reaches t s}.Finite) :
    ∃ n l, u.upward? n start = some l := by
  have hfin : (⋃ t ∈ {t | t ∈ start}, {s | u.Reaches t s}).Finite :=
    start.finite_toSet.biUnion fun t ht => h t ht
  refine exists_upwardFrom? hfin.toFinset (fun t ht s hs => ?_) [] start fun t ht => ?_
  · simp only [Set.Finite.mem_toFinset, Set.mem_iUnion, Set.mem_ofPred_eq] at ht ⊢
    obtain ⟨r, hr, hrt⟩ := ht
    exact ⟨r, hr, hrt.tail hs⟩
  · simp only [Set.Finite.mem_toFinset, Set.mem_iUnion, Set.mem_ofPred_eq]
    exact ⟨t, ht, .refl t⟩

/-- A search whose test answers at the types visited ends with the one that lists them all. -/
theorem isSome_firstUpwardFrom? {α : Type} (test : TypeExpr → Option (Option α))
    {l seen' : List TypeExpr} {n : Nat} (ht : ∀ t ∈ l, (test t).isSome = true)
    (h : u.upwardFrom? n seen queue = some l) (hs : ∀ t, t ∈ seen' ↔ t ∈ seen) :
    (u.firstUpwardFrom? test n seen' queue).isSome = true := by
  induction n generalizing seen seen' queue with
  | zero =>
    cases queue with
    | nil => rw [firstUpwardFrom?]; rfl
    | cons t queue => cases h
  | succ n ih =>
    cases queue with
    | nil => rw [firstUpwardFrom?]; rfl
    | cons t queue =>
      simp only [upwardFrom?] at h
      simp only [firstUpwardFrom?, hs]
      split at h <;> rename_i hm
      · rw [if_pos hm]
        exact ih h hs
      · rw [if_neg hm]
        have hl : t ∈ l := subset_of_upwardFrom? h t (.inl (by simp))
        obtain ⟨x, hx⟩ := Option.isSome_iff_exists.1 (ht t hl)
        cases x with
        | some a => simp [hx]
        | none =>
          simp only [hx, Option.bind_eq_bind, Option.bind_some]
          exact ih h fun x => by simp [hs, or_comm]

/-- A search that finds nothing visits what the one that lists everything visits. -/
theorem exists_upwardFrom?_of_first {α : Type} {test : TypeExpr → Option (Option α)}
    {seen' : List TypeExpr} {n : Nat} (h : u.firstUpwardFrom? test n seen' queue = some none)
    (hs : ∀ t, t ∈ seen' ↔ t ∈ seen) : ∃ l, u.upwardFrom? n seen queue = some l := by
  induction n generalizing seen seen' queue with
  | zero =>
    cases queue with
    | nil => exact ⟨seen, by rw [upwardFrom?]⟩
    | cons t queue => cases h
  | succ n ih =>
    cases queue with
    | nil => exact ⟨seen, by rw [upwardFrom?]⟩
    | cons t queue =>
      simp only [firstUpwardFrom?, hs] at h
      simp only [upwardFrom?]
      split at h <;> rename_i hm
      · rw [if_pos hm]
        exact ih h hs
      · rw [if_neg hm]
        obtain ⟨b, -, h⟩ := Option.bind_eq_some_iff.1 h
        cases b with
        | some a => cases h
        | none => exact ih h fun x => by simp [hs, or_comm]

/-- **A question about a pair of types is answered**, if the first one reaches finitely many. -/
theorem exists_assignable? (h : {r | u.Reaches s r}.Finite) (t : TypeExpr) :
    ∃ n b, u.assignable? n s t = some b := by
  obtain ⟨n, l, hl⟩ : ∃ n l, u.upward? n [s] = some l := exists_upward? (by simpa using h)
  have hs := isSome_firstUpwardFrom? (fun r => some (if r = t then some () else none))
    (fun _ _ => rfl) hl fun _ => Iff.rfl
  obtain ⟨x, hx⟩ := Option.isSome_iff_exists.1 hs
  exact ⟨n, _, Option.bind_eq_some_iff.2 ⟨x, hx, rfl⟩⟩

theorem exists_wrappable? (h : ∀ inner, u.unwrap? s = some inner → {r | u.Reaches inner r}.Finite)
    (t : TypeExpr) : ∃ n b, u.wrappable? n s t = some b := by
  unfold wrappable?
  cases hu : u.unwrap? s with
  | none => exact ⟨0, false, rfl⟩
  | some inner => exact exists_assignable? (h inner hu) t

theorem exists_ofDeclaration? {d : Declaration} (h : {r | u.Reaches d.type r}.Finite)
    (hi : ∀ inner, u.unwrap? d.type = some inner → {r | u.Reaches inner r}.Finite) :
    ∃ n s, Source.ofDeclaration? u n d = some s := by
  obtain ⟨n, own, ho⟩ : ∃ n l, u.upward? n [d.type] = some l := exists_upward? (by simpa using h)
  obtain ⟨m, types, hi⟩ : ∃ m l, u.upward? m (u.unwrap? d.type).toList = some l :=
    exists_upward? (by simpa using hi)
  have ho := upward?_mono (Nat.le_max_left n m) ho
  have hi := upward?_mono (Nat.le_max_right n m) hi
  exact ⟨max n m, _, Option.bind_eq_some_iff.2 ⟨own, ho,
    Option.bind_eq_some_iff.2 ⟨types, hi, rfl⟩⟩⟩

theorem exists_register? {c : Catalog} {d : Draft}
    (h : {r | u.Reaches (c.declare d).type r}.Finite)
    (hi : ∀ inner, u.unwrap? (c.declare d).type = some inner → {r | u.Reaches inner r}.Finite) :
    ∃ n x, c.register? u n d = some x := by
  by_cases ht : (c.declare d).isTemplate = true
  · exact ⟨0, (c.declare d, c.addTemplate (c.declare d)), by simp [Catalog.register?, ht]⟩
  · obtain ⟨n, s, hs⟩ := exists_ofDeclaration? h hi
    exact ⟨n, (c.declare d, c.addSource s), by simp [Catalog.register?, ht, hs]⟩

/-! ## Tables in which every type reaches finitely many -/

namespace Finitary

theorem exists_assignable? (h : u.Finitary) (s t : TypeExpr) :
    ∃ n b, u.assignable? n s t = some b :=
  Universe.exists_assignable? (h s) t

theorem exists_wrappable? (h : u.Finitary) (s t : TypeExpr) :
    ∃ n b, u.wrappable? n s t = some b :=
  Universe.exists_wrappable? (fun inner _ => h inner) t

/-- **Every draft can be declared.** -/
theorem exists_registerSource? (h : u.Finitary) (c : Catalog) (d : Draft) :
    ∃ n x, c.registerSource? u n d = some x := by
  obtain ⟨n, s, hs⟩ := exists_ofDeclaration? (d := c.declare d) (h _) fun inner _ => h inner
  exact ⟨n, _, Option.bind_eq_some_iff.2 ⟨s, hs, rfl⟩⟩

theorem exists_register? (h : u.Finitary) (c : Catalog) (d : Draft) :
    ∃ n x, c.register? u n d = some x :=
  Universe.exists_register? (h _) fun inner _ => h inner

end Finitary

end Universe

end Wiring
