import Wiring.Resolution.Specialization
/-!
# What a search of the supertypes finds

The searches for what a type reaches have a budget, and these are the facts that make them
independent of it.

* `mem_upward?_iff`: a search that ends has listed exactly the types that are reached.
* `assignable?_iff`, `wrappable?_iff` and `interceptorFor?_iff`: a question about a pair of types,
  if it is answered, is answered in terms of what they reach.
* `upward?_mono` and `unify?_mono`: a larger budget keeps every answer. Hence `Unifies` speaks of
  a pattern and a type only, and one search that finds no substitution refutes it
  (`not_unifies_of_unify?`).
-/

namespace Wiring.Universe

/-- The wrapped value of a type reaches `t`. -/
def Wraps (u : Universe) (s t : TypeExpr) : Prop :=
  ∃ inner, u.unwrap? s = some inner ∧ u.Reaches inner t

/-- Interceptors of the type `i` apply to components of the type `t`. -/
def Intercepts (u : Universe) (i t : TypeExpr) : Prop :=
  ∃ target, u.intercepted? i = some target ∧ u.Reaches t target

variable {u : Universe} {t s r : TypeExpr} {n m : Nat} {seen queue l start : List TypeExpr}

/-! ## Everything that is reached -/

theorem upwardFrom?_mono (hn : n ≤ m) (h : u.upwardFrom? n seen queue = some l) :
    u.upwardFrom? m seen queue = some l := by
  induction n generalizing m seen queue with
  | zero =>
    cases queue with
    | nil => simpa [upwardFrom?] using h
    | cons t queue => simp [upwardFrom?] at h
  | succ n ih =>
    obtain ⟨m, rfl⟩ : ∃ k, m = k + 1 := ⟨m - 1, by omega⟩
    cases queue with
    | nil => simpa [upwardFrom?] using h
    | cons t queue =>
      simp only [upwardFrom?] at h ⊢
      split at h <;> rename_i ht
      · rw [if_pos ht]
        exact ih (by omega) h
      · rw [if_neg ht]
        exact ih (by omega) h

/-- The list that a search gives holds the types seen before and those of the queue. -/
theorem subset_of_upwardFrom? (h : u.upwardFrom? n seen queue = some l) :
    ∀ t, t ∈ seen ∨ t ∈ queue → t ∈ l := by
  fun_induction upwardFrom? u n seen queue with
  | case1 seen => simp_all
  | case2 => simp at h
  | case3 seen n t queue ht ih =>
    rintro x (hx | hx)
    · exact ih h x (.inl hx)
    · rcases List.mem_cons.1 hx with rfl | hx
      · exact ih h x (.inl ht)
      · exact ih h x (.inr hx)
  | case4 seen n t queue ht ih =>
    rintro x (hx | hx)
    · exact ih h x (.inl (by simp [hx]))
    · rcases List.mem_cons.1 hx with rfl | hx
      · exact ih h x (.inl (by simp))
      · exact ih h x (.inr (by simp [hx]))

/-- If the supertypes of what was seen are seen or queued, then the list is closed. -/
theorem closed_of_upwardFrom? (h : u.upwardFrom? n seen queue = some l)
    (hc : ∀ t ∈ seen, ∀ s, u.Step t s → s ∈ seen ∨ s ∈ queue) :
    ∀ t ∈ l, ∀ s, u.Step t s → s ∈ l := by
  fun_induction upwardFrom? u n seen queue with
  | case1 seen =>
    obtain rfl := Option.some.inj h
    simpa using hc
  | case2 => simp at h
  | case3 seen n t queue ht ih =>
    refine ih h fun x hx s hs => ?_
    rcases hc x hx s hs with hs | hs
    · exact .inl hs
    · rcases List.mem_cons.1 hs with rfl | hs
      · exact .inl ht
      · exact .inr hs
  | case4 seen n t queue ht ih =>
    refine ih h fun x hx s hs => ?_
    rcases List.mem_append.1 hx with hx | hx
    · rcases hc x hx s hs with hs | hs
      · exact .inl (by simp [hs])
      · rcases List.mem_cons.1 hs with rfl | hs
        · exact .inl (by simp)
        · exact .inr (by simp [hs])
    · obtain rfl := List.mem_singleton.1 hx
      exact .inr (List.mem_append_right _ hs)

/-- What a search adds to the types seen is reached from its queue. -/
theorem reaches_of_upwardFrom? (h : u.upwardFrom? n seen queue = some l) :
    ∀ t ∈ l, t ∈ seen ∨ ∃ s ∈ queue, u.Reaches s t := by
  fun_induction upwardFrom? u n seen queue with
  | case1 seen => simp_all
  | case2 => simp at h
  | case3 seen n t queue ht ih =>
    intro x hx
    rcases ih h x hx with hx | ⟨s, hs, hr⟩
    · exact .inl hx
    · exact .inr ⟨s, by simp [hs], hr⟩
  | case4 seen n t queue ht ih =>
    intro x hx
    rcases ih h x hx with hx | ⟨s, hs, hr⟩
    · rcases List.mem_append.1 hx with hx | hx
      · exact .inl hx
      · obtain rfl := List.mem_singleton.1 hx
        exact .inr ⟨x, by simp, .refl x⟩
    · rcases List.mem_append.1 hs with hs | hs
      · exact .inr ⟨s, by simp [hs], hr⟩
      · exact .inr ⟨t, by simp, .step hs hr⟩

theorem mem_of_reaches (hl : ∀ t ∈ l, ∀ s, u.Step t s → s ∈ l) (hr : u.Reaches t s) (ht : t ∈ l) :
    s ∈ l := by
  induction hr with
  | refl => exact ht
  | step hs _ ih => exact ih (hl _ ht _ hs)

/-- **A search that ends has listed exactly what is reached from its start.** -/
theorem mem_upward?_iff (h : u.upward? n start = some l) :
    t ∈ l ↔ ∃ s ∈ start, u.Reaches s t := by
  refine ⟨fun ht => ?_, fun ⟨s, hs, hr⟩ => ?_⟩
  · simpa using reaches_of_upwardFrom? h t ht
  · exact mem_of_reaches (closed_of_upwardFrom? h (by simp)) hr
      (subset_of_upwardFrom? h s (.inr hs))

theorem upward?_mono (hn : n ≤ m) (h : u.upward? n start = some l) :
    u.upward? m start = some l :=
  upwardFrom?_mono hn h

/-! ## The first thing that is found -/

variable {α : Type} {test test' : TypeExpr → Option (Option α)} {a : Option α}

/-- A larger budget, for the search and for its test, keeps the answer. -/
theorem firstUpwardFrom?_mono (hn : n ≤ m) (ht : ∀ t a, test t = some a → test' t = some a)
    (h : u.firstUpwardFrom? test n seen queue = some a) :
    u.firstUpwardFrom? test' m seen queue = some a := by
  induction n generalizing m seen queue with
  | zero =>
    cases queue with
    | nil => simpa [firstUpwardFrom?] using h
    | cons t queue => simp [firstUpwardFrom?] at h
  | succ n ih =>
    obtain ⟨m, rfl⟩ : ∃ k, m = k + 1 := ⟨m - 1, by omega⟩
    cases queue with
    | nil => simpa [firstUpwardFrom?] using h
    | cons t queue =>
      simp only [firstUpwardFrom?] at h ⊢
      split at h <;> rename_i hs
      · rw [if_pos hs]
        exact ih (by omega) h
      · rw [if_neg hs]
        obtain ⟨b, hb, h⟩ := Option.bind_eq_some_iff.1 h
        refine Option.bind_eq_some_iff.2 ⟨b, ht t b hb, ?_⟩
        cases b with
        | none => exact ih (by omega) h
        | some b => exact h

/-- What is found is found at a type that is reached from the queue. -/
theorem exists_of_firstUpwardFrom? {a : α}
    (h : u.firstUpwardFrom? test n seen queue = some (some a)) :
    ∃ s ∈ queue, ∃ t, u.Reaches s t ∧ test t = some (some a) := by
  fun_induction firstUpwardFrom? u test n seen queue with
  | case1 => simp at h
  | case2 => simp at h
  | case3 n seen q queue hq ih =>
    obtain ⟨s, hs, h⟩ := ih h
    exact ⟨s, List.mem_cons_of_mem _ hs, h⟩
  | case4 n seen q queue hq ih =>
    obtain ⟨b, hb, h⟩ := Option.bind_eq_some_iff.1 h
    cases b with
    | some b =>
      cases h
      exact ⟨q, List.mem_cons_self, q, .refl q, hb⟩
    | none =>
      obtain ⟨s, hs, x, hr, hx⟩ := ih h
      rcases List.mem_append.1 hs with hs | hs
      · exact ⟨s, List.mem_cons_of_mem _ hs, x, hr, hx⟩
      · exact ⟨q, List.mem_cons_self, x, .step hs hr, hx⟩

/-- If nothing is found, then there is nothing at any of the types that are reached. -/
theorem forall_of_firstUpwardFrom? (h : u.firstUpwardFrom? test n seen queue = some none)
    (hc : ∀ t ∈ seen, ∀ s, u.Step t s → s ∈ seen ∨ s ∈ queue)
    (ht : ∀ t ∈ seen, test t = some none) (hs : s ∈ seen ∨ s ∈ queue) (hr : u.Reaches s t) :
    test t = some none := by
  fun_induction firstUpwardFrom? u test n seen queue with
  | case1 n seen =>
    have hclosed : ∀ t ∈ seen, ∀ s, u.Step t s → s ∈ seen := by simpa using hc
    exact ht t (mem_of_reaches hclosed hr (by simpa using hs))
  | case2 => simp at h
  | case3 n seen q queue hq ih =>
    -- What is seen again is not queued any more.
    have hqueue {x : TypeExpr} (hx : x ∈ seen ∨ x ∈ q :: queue) : x ∈ seen ∨ x ∈ queue := by
      rcases hx with hx | hx
      · exact .inl hx
      · exact (List.mem_cons.1 hx).imp_left fun (e : x = q) => e ▸ hq
    exact ih h (fun x hx y hy => hqueue (hc x hx y hy)) ht (hqueue hs)
  | case4 n seen q queue hq ih =>
    have hqueue {x : TypeExpr} (hx : x ∈ seen ∨ x ∈ q :: queue) :
        x ∈ q :: seen ∨ x ∈ queue ++ u.supertypes q := by
      simp only [List.mem_cons, List.mem_append] at hx ⊢
      rcases hx with hx | hx | hx <;> simp [hx]
    obtain ⟨b, hb, h⟩ := Option.bind_eq_some_iff.1 h
    cases b with
    | some b => cases h
    | none =>
      refine ih h (fun x hx y hy => ?_) (fun x hx => ?_) (hqueue hs)
      · rcases List.mem_cons.1 hx with rfl | hx
        · exact .inr (List.mem_append_right _ hy)
        · exact hqueue (hc x hx y hy)
      · rcases List.mem_cons.1 hx with rfl | hx
        · exact hb
        · exact ht x hx

/-- **Whether a value can be used for another is a question of what its type reaches.** -/
theorem assignable?_iff {b : Bool} (h : u.assignable? n s t = some b) :
    b = true ↔ u.Reaches s t := by
  obtain ⟨a, ha, h⟩ := Option.bind_eq_some_iff.1 h
  obtain rfl : a.isSome = b := Option.some.inj h
  constructor
  · intro hb
    obtain ⟨x, rfl⟩ := Option.isSome_iff_exists.1 hb
    obtain ⟨q, hq, r, hr, ht⟩ := exists_of_firstUpwardFrom? ha
    obtain rfl := List.mem_singleton.1 hq
    split at ht <;> rename_i e
    · exact e ▸ hr
    · cases ht
  · intro hr
    cases a with
    | some x => rfl
    | none =>
      have hn := forall_of_firstUpwardFrom? ha (by simp) (by simp)
        (.inr (List.mem_singleton_self s)) hr
      simp at hn

/-- **Whether the value inside another can be used is a question of what its type reaches.** -/
theorem wrappable?_iff {b : Bool} (h : u.wrappable? n s t = some b) :
    b = true ↔ u.Wraps s t := by
  unfold wrappable? at h
  unfold Wraps
  cases hu : u.unwrap? s with
  | none =>
    obtain rfl : false = b := by simpa [hu] using h
    simp
  | some inner =>
    rw [hu] at h
    simpa using assignable?_iff h

/-- **Whether interceptors apply is a question of what the type of the component reaches.** -/
theorem interceptorFor?_iff {b : Bool} (h : u.interceptorFor? n s t = some b) :
    b = true ↔ u.Intercepts s t := by
  unfold interceptorFor? at h
  unfold Intercepts
  cases hu : u.intercepted? s with
  | none =>
    obtain rfl : false = b := by simpa [hu] using h
    simp
  | some target =>
    rw [hu] at h
    simpa using assignable?_iff h

theorem assignable?_mono {b : Bool} (hn : n ≤ m) (h : u.assignable? n s t = some b) :
    u.assignable? m s t = some b := by
  obtain ⟨a, ha, h⟩ := Option.bind_eq_some_iff.1 h
  exact Option.bind_eq_some_iff.2 ⟨a, firstUpwardFrom?_mono hn (fun _ _ h => h) ha, h⟩

theorem wrappable?_mono {b : Bool} (hn : n ≤ m) (h : u.wrappable? n s t = some b) :
    u.wrappable? m s t = some b := by
  unfold wrappable? at h ⊢
  cases hu : u.unwrap? s with
  | none => simpa [hu] using h
  | some inner =>
    simp only [hu] at h ⊢
    exact assignable?_mono hn h

/-! ## Unification -/

theorem unify?_test_mono {x : Option Substitution} (hn : n ≤ m)
    (h : unify?.test u n s t r = some x) : unify?.test u m s t r = some x := by
  unfold unify?.test at h ⊢
  cases hm : r.matchWith t ∅ with
  | none => simpa [hm] using h
  | some σ =>
    simp only [hm] at h ⊢
    split at h <;> rename_i hv
    · rw [if_pos hv]
      obtain ⟨b, hb, h⟩ := Option.bind_eq_some_iff.1 h
      refine Option.bind_eq_some_iff.2 ⟨b, assignable?_mono hn hb, ?_⟩
      split at h <;> rename_i hb'
      · rw [if_pos hb']
        exact h
      · rw [if_neg hb']
        obtain ⟨b, hb, h⟩ := Option.bind_eq_some_iff.1 h
        exact Option.bind_eq_some_iff.2 ⟨b, wrappable?_mono hn hb, h⟩
    · rw [if_neg hv]
      exact h

theorem unify?_mono {x : Option Substitution} (hn : n ≤ m) (h : u.unify? n s t = some x) :
    u.unify? m s t = some x :=
  firstUpwardFrom?_mono hn (fun _ _ => unify?_test_mono hn) h

/-- A substitution that is found at a type was read off a match with it, binds all variables of the
pattern, and makes the pattern satisfy a claim on `t`. -/
theorem of_unify?_test {σ : Substitution} (h : unify?.test u n s t r = some (some σ)) :
    r.matchWith t ∅ = some σ ∧ (∀ x ∈ s.vars, (σ.get? x).isSome = true) ∧
      (u.Reaches (s.substitute σ) t ∨ u.Wraps (s.substitute σ) t) := by
  unfold unify?.test at h
  split at h
  · cases h
  · next τ hm =>
    split at h
    · next hv =>
      obtain ⟨b, hb, h⟩ := Option.bind_eq_some_iff.1 h
      split at h <;> rename_i hb'
      · cases h
        exact ⟨hm, List.all_eq_true.1 hv, .inl ((assignable?_iff hb).1 hb')⟩
      · obtain ⟨b, hb, h⟩ := Option.bind_eq_some_iff.1 h
        split at h <;> rename_i hb'
        · cases h
          exact ⟨hm, List.all_eq_true.1 hv, .inr ((wrappable?_iff hb).1 hb')⟩
        · cases h
    · cases h

/-- The substitution that is found makes the pattern satisfy a claim on `t`. -/
theorem reaches_of_unify? {σ : Substitution} (h : u.unify? n s t = some (some σ)) :
    u.Reaches (s.substitute σ) t ∨ u.Wraps (s.substitute σ) t := by
  obtain ⟨-, -, r, -, ht⟩ := exists_of_firstUpwardFrom? h
  exact (of_unify?_test ht).2.2

/-- A substitution for the variables of the pattern satisfies a claim on `t`. -/
def Unifies (u : Universe) (pattern t : TypeExpr) : Prop :=
  ∃ budget σ, u.unify? budget pattern t = some (some σ)

/-- A search that ends without a substitution rules out that a larger one finds any. -/
theorem not_unifies_of_unify? (h : u.unify? n s t = some none) : ¬ u.Unifies s t := by
  rintro ⟨m, σ, hm⟩
  have h₁ := unify?_mono (Nat.le_max_left n m) h
  have h₂ := unify?_mono (Nat.le_max_right n m) hm
  rw [h₁] at h₂
  cases h₂

end Wiring.Universe
