import Wiring.Proofs.Universe.Search
/-!
# Entries of a table

What is known of a type is said by the entry under its name (`Universe.exists_of_info?`). So what no
entry says is true of no type: without constructors in the table no type has one
(`Universe.autoConstructor?_eq_none`), and likewise for optional wrappers and interceptors.
-/

namespace Wiring

theorem NameMap.mem_of_get? {α : Type} {m : NameMap α} {k : String} {v : α}
    (h : m.get? k = some v) : (k, v) ∈ m.toList := by
  obtain ⟨as, bs, e, -⟩ := List.lookup_eq_some_iff.1 h
  rw [NameMap.toList, e]
  simp

namespace Universe

variable {u : Universe} {t s : TypeExpr} {info : TypeInfo} {a : AutoConstructor}

/-- A description is an entry of the table. -/
theorem exists_of_info? (h : u.info? t = some info) :
    ∃ n args, t = .named n args ∧ (n, info) ∈ u.types.toList := by
  cases t with
  | var x => cases h
  | named n args => exact ⟨n, args, rfl, NameMap.mem_of_get? h⟩

/-- A step leads to what an entry says of the parameters, with the arguments in their places. -/
theorem exists_of_step (h : u.Step t s) : ∃ n args info p, t = .named n args ∧
    u.info? t = some info ∧ (n, info) ∈ u.types.toList ∧ p ∈ info.supertypes ∧
      s = info.instantiate p t := by
  unfold Step supertypes at h
  split at h
  · next info hi =>
    obtain ⟨n, args, e, hm⟩ := exists_of_info? hi
    obtain ⟨p, hp, rfl⟩ := List.mem_map.1 h
    exact ⟨n, args, info, p, e, hi, hm, hp, rfl⟩
  · cases h

/-- A type with a usable constructor is described, and has no arguments. -/
theorem exists_of_autoConstructor? (h : u.autoConstructor? t = some a) :
    ∃ n info, t = .named n [] ∧ (n, info) ∈ u.types.toList ∧ info.constructor = some a.claims := by
  obtain ⟨info, hi, h⟩ := Option.bind_eq_some_iff.1 h
  split at h
  · next hk =>
    obtain ⟨-, -, -, ht⟩ := hk
    obtain ⟨cs, hcs, e⟩ := Option.bind_eq_some_iff.1 h
    cases e
    obtain ⟨n, args, rfl, hm⟩ := exists_of_info? hi
    obtain rfl : args = [] := ht
    exact ⟨n, info, rfl, hm, hcs⟩
  · cases h

/-! ## What no entry says -/

theorem autoConstructor?_eq_none (h : ∀ e ∈ u.types.toList, e.2.constructor = none)
    (t : TypeExpr) : u.autoConstructor? t = none := by
  cases ha : u.autoConstructor? t with
  | none => rfl
  | some a =>
    obtain ⟨n, info, -, hm, hc⟩ := exists_of_autoConstructor? ha
    cases (h _ hm).symm.trans hc

theorem optionalInner?_eq_none (h : ∀ e ∈ u.types.toList, e.2.optional = false)
    (t : TypeExpr) : u.optionalInner? t = none := by
  unfold optionalInner?
  cases hi : u.info? t with
  | none => rfl
  | some info =>
    obtain ⟨n, args, -, hm⟩ := exists_of_info? hi
    have ho : info.optional = false := h _ hm
    simp only [ho, Option.bind_eq_bind, Option.bind_some]
    split <;> rfl

theorem not_intercepts (h : ∀ e ∈ u.types.toList, e.2.intercepts = none) (i t : TypeExpr) :
    ¬ u.Intercepts i t := by
  rintro ⟨target, hi, -⟩
  obtain ⟨info, hinfo, hi⟩ := Option.bind_eq_some_iff.1 hi
  obtain ⟨n, args, -, hm⟩ := exists_of_info? hinfo
  have hnone : info.intercepts = none := h _ hm
  rw [hnone] at hi
  cases hi

end Universe

end Wiring
