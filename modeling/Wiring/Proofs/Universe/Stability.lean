import Wiring.Proofs.TypeExpr.Matching
/-!
# What a table says of specialized types

The parts of a description speak of its own parameters, and the type asked about may have variables
of the same names. Asking first and specializing afterwards gives the same answer as specializing
first (`Universe.queries_are_stable_under_substitution`): a part that was read has no variables
(`Universe.Parsed`), so after its parameters are bound they are the only ones, all of them are
replaced by arguments, and none is left for the substitution to capture
(`TypeInfo.instantiate_substitute`). For this the type must have as many arguments as its
description has parameters (`Universe.Applied`); else the parameters stay, and the substitution
would replace them.
-/

namespace Wiring

open TypeExpr

/-! ## Parts of a description -/

namespace TypeInfo

variable {info : TypeInfo} {n : String} {args : List TypeExpr} {part t : TypeExpr}
  {σ : Substitution}

/-- Replacing variables in a type replaces them in what its parameters stand for. -/
theorem argumentsOf_substitute : info.argumentsOf ((named n args).substitute σ) =
    (info.argumentsOf (named n args)).map (·.substitute σ) := by
  unfold argumentsOf
  rw [substitute_named, TypeExpr.args, TypeExpr.args, List.length_map]
  split
  · rw [NameMap.map_ofList, List.zip_map_right]
    rfl
  · rfl

/-- With the right number of arguments all parameters stand for something. -/
theorem isSome_argumentsOf {x : String} (h : t.args.length = info.params.length)
    (hx : x ∈ info.params) : ((info.argumentsOf t).get? x).isSome = true := by
  rw [argumentsOf, if_pos h]
  refine NameMap.isSome_get?_ofList ?_
  rwa [List.map_fst_zip h.ge]

/-- **A part of a description commutes with substitution**, if the part has no variables of its own
and the type has the right number of arguments. -/
theorem instantiate_substitute (hpart : part.hasVars = false)
    (hlen : (named n args).args.length = info.params.length) :
    info.instantiate part ((named n args).substitute σ) =
      (info.instantiate part (named n args)).substitute σ := by
  rw [instantiate, instantiate, argumentsOf_substitute, substitute_substitute]
  exact fun x hx => isSome_argumentsOf hlen (hasVars_bind hpart x hx)

/-- The types that a description is made of, those of the constructor apart. -/
def parts (info : TypeInfo) : List TypeExpr :=
  info.supertypes ++ info.wraps.toList ++ info.intercepts.toList

theorem mem_parts_iff : part ∈ info.parts ↔
    part ∈ info.supertypes ∨ info.wraps = some part ∨ info.intercepts = some part := by
  rw [parts, List.mem_append, List.mem_append, Option.mem_toList, Option.mem_toList, or_assoc]

end TypeInfo

namespace Universe

variable {u : Universe} {t : TypeExpr} {n : String} {args : List TypeExpr} {σ : Substitution}
  {info : TypeInfo}

/-! ## Tables of types that were read -/

/-- The types in the descriptions were read from texts. -/
def Parsed (u : Universe) : Prop :=
  ∀ e ∈ u.types.toList, ∀ part ∈ e.2.parts, ∃ text, TypeExpr.parse text = .ok part

theorem Parsed.hasVars (hu : u.Parsed) (hi : u.info? t = some info) :
    ∀ part ∈ info.parts, part.hasVars = false := by
  intro part hp
  obtain ⟨n, args, -, hm⟩ := exists_of_info? hi
  obtain ⟨text, h⟩ := hu (n, info) hm part hp
  exact hasVars_of_parse h

theorem Written.hasVars (hu : u.Written) (hi : u.info? t = some info) :
    ∀ part ∈ info.supertypes ++ info.wraps.toList, part.hasVars = false := by
  obtain ⟨n, args, -, hm⟩ := exists_of_info? hi
  exact hu (n, info) hm

/-- **A table that is read is made of types that were read.** -/
theorem parsed_of_ofValue {d : Dialect} {v : Value} (h : Universe.ofValue d v = .ok u) :
    u.Parsed := by
  intro e he part hp
  obtain ⟨w, hw⟩ := exists_of_ofValue h e he
  obtain ⟨fs, hs, hw, hi, -⟩ := TypeInfo.exists_of_ofValue hw
  rcases TypeInfo.mem_parts_iff.1 hp with hp | hp | hp
  · obtain ⟨x, hx⟩ := FieldReader.exists_of_optional_asList hs part hp
    exact Value.exists_of_asType hx
  · rw [hp] at hw
    obtain ⟨x, hx⟩ := FieldReader.exists_of_optional_asOption hw
    exact Value.exists_of_asType hx
  · rw [hp] at hi
    obtain ⟨x, hx⟩ := FieldReader.exists_of_optional_asOption hi
    exact Value.exists_of_asType hx

/-! ## Questions about specialized types -/

/-- The type has as many arguments as its description has parameters. -/
def Applied (u : Universe) (t : TypeExpr) : Prop :=
  ∀ info, u.info? t = some info → t.args.length = info.params.length

/-- Specializing a named type leaves its description. -/
theorem info?_substitute : u.info? ((named n args).substitute σ) = u.info? (named n args) := by
  rw [substitute_named]
  rfl

theorem supertypes_substitute (ht : u.Applied (named n args))
    (hpart : ∀ info, u.info? (named n args) = some info →
      ∀ part ∈ info.supertypes, part.hasVars = false) :
    u.supertypes ((named n args).substitute σ) =
      (u.supertypes (named n args)).map (·.substitute σ) := by
  unfold supertypes
  rw [info?_substitute]
  cases hi : u.info? (named n args) with
  | none => rfl
  | some info =>
    rw [List.map_map]
    exact List.map_congr_left fun part hp =>
      TypeInfo.instantiate_substitute (hpart info hi part hp) (ht info hi)

/-- What stands in a place of the description, as it is for the type asked about. -/
def part? (u : Universe) (place : TypeInfo → Option TypeExpr) (t : TypeExpr) :
    Option TypeExpr := do
  let info ← u.info? t
  return info.instantiate (← place info) t

theorem unwrap?_eq_part? : u.unwrap? t = u.part? TypeInfo.wraps t := rfl

theorem intercepted?_eq_part? : u.intercepted? t = u.part? TypeInfo.intercepts t := rfl

theorem part?_substitute {place : TypeInfo → Option TypeExpr} (ht : u.Applied (named n args))
    (hpart : ∀ info, u.info? (named n args) = some info →
      ∀ part, place info = some part → part.hasVars = false) :
    u.part? place ((named n args).substitute σ) =
      (u.part? place (named n args)).map (·.substitute σ) := by
  unfold part?
  rw [info?_substitute]
  cases hi : u.info? (named n args) with
  | none => rfl
  | some info =>
    cases hp : place info with
    | none => simp [hp]
    | some part =>
      have e := TypeInfo.instantiate_substitute (σ := σ) (hpart info hi part hp) (ht info hi)
      simp [hp, e]

/-! ## The main result -/

/-- **What a table says of a type is stable under substitution.** Let the table be made of types
that were read, and let a named type have as many arguments as its description has parameters. Then
its direct supertypes, the type of the value that it wraps and the type that it decorates are, after
a substitution, what they were before it with the substitution applied, also where variables of the
type or of the substitution have the names of parameters. -/
theorem queries_are_stable_under_substitution (hu : u.Parsed) (ht : u.Applied (named n args))
    (σ : Substitution) :
    u.supertypes ((named n args).substitute σ) =
      (u.supertypes (named n args)).map (·.substitute σ) ∧
    u.unwrap? ((named n args).substitute σ) = (u.unwrap? (named n args)).map (·.substitute σ) ∧
    u.intercepted? ((named n args).substitute σ) =
      (u.intercepted? (named n args)).map (·.substitute σ) := by
  simp only [unwrap?_eq_part?, intercepted?_eq_part?]
  refine ⟨supertypes_substitute ht fun info hi part hp => ?_,
    part?_substitute ht fun info hi part hp => ?_, part?_substitute ht fun info hi part hp => ?_⟩
  · exact hu.hasVars hi part (TypeInfo.mem_parts_iff.2 (.inl hp))
  · exact hu.hasVars hi part (TypeInfo.mem_parts_iff.2 (.inr (.inl hp)))
  · exact hu.hasVars hi part (TypeInfo.mem_parts_iff.2 (.inr (.inr hp)))

/-- A view of a store swaps the parameters of the store. -/
def views : Universe where
  types := .ofList
    [("Store", { kind := .interface, params := ["S", "T"] }),
      ("View",
        { params := ["S", "T"]
          supertypes := [named "Store" [named "T" [], named "S" []]]
          wraps := some (named "List" [named "S" []])
          intercepts := some (named "Store" [named "S" [], named "List" [named "T" []]]) })]

/-- The variables of the view are called like the parameters, the other way round, and one of them
is replaced by the other. -/
theorem queries_are_stable_under_substitution_views :
    let t := named "View" [named "List" [var "T"], var "S"]
    let σ : Substitution := .ofList [("S", named "User" []), ("T", var "S")]
    views.Parsed ∧ views.Applied t ∧
    views.supertypes t = [named "Store" [var "S", named "List" [var "T"]]] ∧
    views.supertypes (t.substitute σ) =
      [named "Store" [named "User" [], named "List" [var "S"]]] ∧
    views.supertypes (t.substitute σ) = (views.supertypes t).map (·.substitute σ) ∧
    views.unwrap? (t.substitute σ) = (views.unwrap? t).map (·.substitute σ) ∧
    views.intercepted? (t.substitute σ) = (views.intercepted? t).map (·.substitute σ) := by
  intro t σ
  have hread : ∀ e ∈ views.types.toList, ∀ part ∈ e.2.parts,
      TypeExpr.parse part.render = .ok part := by decide +kernel
  have hu : views.Parsed := fun e he part hp => ⟨part.render, hread e he part hp⟩
  have ht : views.Applied t := by
    have hlen : (views.info? t).all (fun info => t.args.length == info.params.length) = true := by
      decide +kernel
    intro info hi
    rw [hi] at hlen
    exact beq_iff_eq.1 hlen
  exact ⟨hu, ht, by decide +kernel, by decide +kernel,
    queries_are_stable_under_substitution hu ht σ⟩

end Universe

end Wiring
