import Wiring.Proofs.Universe.Vocabulary
/-!
# What a match means

A pattern that matches a type becomes this type under the substitution found, which binds the
variables of the pattern and no others (`TypeExpr.Becomes`, `TypeExpr.becomes_of_matchWith`).

Replacing variables twice is replacing them once by what has been replaced
(`TypeExpr.substitute_substitute`), provided that the first replacement leaves no variable over.
-/

namespace Wiring

namespace NameMap

variable {α β : Type} {m : NameMap α} {f : α → β}

@[simp] theorem get?_map (m : NameMap α) (f : α → β) (k : String) :
    (m.map f).get? k = (m.get? k).map f := by
  have h (l : List (String × α)) :
      (l.map fun e => (e.1, f e.2)).lookup k = (l.lookup k).map f := by
    induction l with
    | nil => rfl
    | cons e l ih =>
      rw [List.map_cons, lookup_cons_eq, lookup_cons_eq, ih]
      split <;> rfl
  exact h m.entries

/-- The map of a list with its values replaced. -/
theorem map_ofList (f : α → β) (l : List (String × α)) :
    (ofList l).map f = ofList (l.map fun e => (e.1, f e.2)) := by
  have hfold (m : NameMap α) : (l.foldl (fun m e => m.insert e.1 e.2) m).map f =
      (l.map fun e => (e.1, f e.2)).foldl (fun m e => m.insert e.1 e.2) (m.map f) := by
    induction l generalizing m with
    | nil => rfl
    | cons e l ih =>
      rw [List.foldl_cons, ih, List.map_cons, List.foldl_cons]
      congr 1
      refine ext_get? fun k => ?_
      rw [get?_map, get?_insert, get?_insert, get?_map]
      split <;> rfl
  exact hfold empty

/-- A name of a list of entries has a value. -/
theorem isSome_get?_ofList {l : List (String × α)} {k : String} (h : k ∈ l.map (·.1)) :
    ((ofList l).get? k).isSome = true := by
  have hfold (m : NameMap α) (h : (m.get? k).isSome = true ∨ k ∈ l.map (·.1)) :
      ((l.foldl (fun m e => m.insert e.1 e.2) m).get? k).isSome = true := by
    clear * - h
    induction l generalizing m with
    | nil => simpa using h
    | cons e l ih =>
      refine ih _ ?_
      rw [get?_insert]
      split
      · exact .inl rfl
      · next hk => simpa [hk] using h
  exact hfold empty (.inr h)

end NameMap

namespace TypeExpr

variable {p t c : TypeExpr} {n x : String} {args : List TypeExpr} {σ τ τ' : Substitution}

theorem substitute_named : (named n args).substitute σ = named n (args.map (·.substitute σ)) := by
  rw [substitute, substituteAll_eq_map]

theorem mem_varOccurrences_named :
    x ∈ (named n args).varOccurrences ↔ ∃ a ∈ args, x ∈ a.varOccurrences := by
  rw [varOccurrences, varOccurrencesAll_eq_flatMap, List.mem_flatMap]

/-- Substitutions that agree on the variables of a type make the same of it. -/
theorem substitute_congr (h : ∀ x ∈ t.varOccurrences, σ.get? x = τ.get? x) :
    t.substitute σ = t.substitute τ := by
  induction t using ind with
  | var x => rw [substitute, substitute, h x (by simp [varOccurrences])]
  | named n args ih =>
    rw [substitute_named, substitute_named]
    congr 1
    refine List.map_congr_left fun a ha => ih a ha fun x hx => ?_
    exact h x (mem_varOccurrences_named.2 ⟨a, ha, hx⟩)

/-- **Replacing twice is replacing once**, if the first replacement leaves no variable over. -/
theorem substitute_substitute (h : ∀ x ∈ t.varOccurrences, (σ.get? x).isSome = true) :
    (t.substitute σ).substitute τ = t.substitute (σ.map (·.substitute τ)) := by
  induction t using ind with
  | var x =>
    obtain ⟨v, hv⟩ := Option.isSome_iff_exists.1 (h x (by simp [varOccurrences]))
    simp [substitute, hv]
  | named n args ih =>
    rw [substitute_named, substitute_named, substitute_named, List.map_map]
    congr 1
    refine List.map_congr_left fun a ha => ih a ha fun x hx => ?_
    exact h x (mem_varOccurrences_named.2 ⟨a, ha, hx⟩)

/-- What is left after all variables were replaced by types without variables has none. -/
theorem hasVars_bind {params : List String} (h : t.hasVars = false) :
    ∀ x ∈ (t.bind params).varOccurrences, x ∈ params := by
  induction t using ind with
  | var x => simp [hasVars, varOccurrences] at h
  | named n args ih =>
    have hargs := hasVars_named.1 h
    cases args with
    | nil =>
      rw [bind]
      split
      · next hn => simpa [varOccurrences] using hn
      · simp [varOccurrences, varOccurrencesAll]
    | cons a as =>
      rw [bind, bindAll_eq_map, ← List.map_cons]
      intro x hx
      obtain ⟨b, hb, hx⟩ := mem_varOccurrences_named.1 hx
      obtain ⟨c, hc, rfl⟩ := List.mem_map.1 hb
      exact ih c hc (hargs c hc) x hx

end TypeExpr

/-! ## Matches -/

/-- What `σ` has for a variable, `τ` has for it too. -/
def Substitution.Extends (τ σ : Substitution) : Prop :=
  ∀ x v, σ.get? x = some v → τ.get? x = some v

namespace TypeExpr

variable {p t c : TypeExpr} {n x : String} {σ τ τ' : Substitution}

theorem extends_refl : Substitution.Extends σ σ := fun _ _ h => h

theorem extends_trans (h : Substitution.Extends τ' τ) (h' : Substitution.Extends τ σ) :
    Substitution.Extends τ' σ := fun x v hv => h x v (h' x v hv)

/-- The pattern becomes `t` under the substitution, which binds all of its variables. -/
structure Becomes (p t : TypeExpr) (σ : Substitution) : Prop where
  /-- All variables are bound. -/
  binds : ∀ x ∈ p.varOccurrences, (σ.get? x).isSome = true
  /-- The pattern becomes the type. -/
  eq : p.substitute σ = t

/-- What extends the substitution makes the same of the pattern. -/
theorem Becomes.mono (h : p.Becomes t σ) (hτ : τ.Extends σ) : p.Becomes t τ := by
  have hget (x : String) (hx : x ∈ p.varOccurrences) : σ.get? x = τ.get? x := by
    obtain ⟨v, hv⟩ := Option.isSome_iff_exists.1 (h.binds x hx)
    rw [hv, hτ x v hv]
  exact ⟨fun x hx => hget x hx ▸ h.binds x hx, (substitute_congr hget).symm.trans h.eq⟩

theorem mem_varOccurrences_cons {ps : List TypeExpr} : x ∈ (named n (p :: ps)).varOccurrences ↔
    x ∈ p.varOccurrences ∨ x ∈ (named n ps).varOccurrences := by
  rw [varOccurrences, varOccurrencesAll, List.mem_append, varOccurrences]

theorem becomes_nil : (named n []).Becomes (named n []) σ where
  binds x hx := by simp [mem_varOccurrences_named] at hx
  eq := substitute_named

theorem Becomes.cons {ps ts : List TypeExpr} (h : p.Becomes t σ)
    (hs : (named n ps).Becomes (named n ts) σ) :
    (named n (p :: ps)).Becomes (named n (t :: ts)) σ where
  binds x hx := (mem_varOccurrences_cons.1 hx).elim (h.binds x) (hs.binds x)
  eq := by
    have e := substitute_named.symm.trans hs.eq
    rw [substitute_named, List.map_cons, h.eq, (named.inj e).2]

/-- What a match yields: the pattern becomes the type, and nothing was bound but its variables. -/
structure Matched (p t : TypeExpr) (σ τ : Substitution) : Prop where
  /-- What was bound before is bound as before. -/
  extends_ : τ.Extends σ
  /-- The pattern becomes the type. -/
  becomes : p.Becomes t τ
  /-- What is bound now and was not before is a variable of the pattern. -/
  occurs : ∀ x, (τ.get? x).isSome = true → (σ.get? x).isSome = true ∨ x ∈ p.varOccurrences

theorem matched_var (h : (var x).matchWith t σ = some τ) : (var x).Matched t σ τ := by
  rw [matchWith] at h
  split at h
  · next bound hx =>
    split at h
    · next e =>
      cases h
      refine ⟨extends_refl, ⟨fun y hy => ?_, ?_⟩, fun y hy => .inl hy⟩
      · obtain rfl : y = x := by simpa [varOccurrences] using hy
        rw [hx]
        rfl
      · rw [substitute, hx]
        exact e
    · cases h
  · next hx =>
    cases h
    refine ⟨fun y v hv => ?_, ⟨fun y hy => ?_, by simp [substitute]⟩, fun y hy => ?_⟩
    · rw [NameMap.get?_insert, if_neg]
      · exact hv
      · rintro rfl
        simp [hx] at hv
    · obtain rfl : y = x := by simpa [varOccurrences] using hy
      simp
    · rw [NameMap.get?_insert] at hy
      split at hy
      · next e => exact .inr (by simp [varOccurrences, e])
      · exact .inl hy

mutual

/-- **A pattern becomes what it matches.** -/
theorem matched_of_matchWith {p t : TypeExpr} {σ τ : Substitution}
    (h : p.matchWith t σ = some τ) : p.Matched t σ τ := by
  match p, t with
  | .var x, t => exact matched_var h
  | .named n ps, .named m ts =>
    rw [matchWith] at h
    split at h
    · next e => exact e ▸ matched_of_matchAll n h
    · cases h
  | .named n ps, .var x => cases h

theorem matched_of_matchAll {ps ts : List TypeExpr} {σ τ : Substitution} (n : String)
    (h : matchAll ps ts σ = some τ) : (named n ps).Matched (named n ts) σ τ := by
  match ps, ts with
  | [], [] =>
    cases h
    exact ⟨extends_refl, becomes_nil, fun _ => .inl⟩
  | p :: ps, t :: ts =>
    rw [matchAll] at h
    obtain ⟨σ', h₁, h₂⟩ := Option.bind_eq_some_iff.1 h
    have hp := matched_of_matchWith h₁
    have hps := matched_of_matchAll n h₂
    refine ⟨extends_trans hps.extends_ hp.extends_, (hp.becomes.mono hps.extends_).cons hps.becomes,
      fun x hx => ?_⟩
    rw [mem_varOccurrences_cons]
    rcases hps.occurs x hx with hx | hx
    · exact (hp.occurs x hx).imp_right .inl
    · exact .inr (.inr hx)
  | [], _ :: _ => cases h
  | _ :: _, [] => cases h

end

/-- A pattern that matches without anything bound before binds exactly its variables. -/
theorem isSome_iff_of_matchWith (h : p.matchWith t ∅ = some σ) :
    (σ.get? x).isSome = true ↔ x ∈ p.vars := by
  have hm := matched_of_matchWith h
  rw [mem_vars]
  exact ⟨fun hx => (hm.occurs x hx).resolve_left (Bool.false_ne_true ·), hm.becomes.binds x⟩

end TypeExpr

end Wiring
