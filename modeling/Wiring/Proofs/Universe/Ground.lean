import Wiring.Proofs.Resolution.Moves
import Wiring.Proofs.Universe.Table
import Wiring.Universe.Encoding
/-!
# Types without variables

A name in a written type is a type, never a variable: variables are made from the parameters of the
declaration that a type belongs to. So no type that is read has a variable
(`TypeExpr.hasVars_of_parse`), and in a table that is read no constructor claims a type with one
(`Universe.ground_of_ofValue`) and no supertype or wrapped value is described with one
(`Universe.written_of_ofValue`).
-/

namespace Wiring

open Resolver (bind_eq_ok)

namespace TypeExpr

variable {n : String} {args : List TypeExpr} {t : TypeExpr} {l : Lexeme} {ls : List Lexeme}

theorem hasVars_named : (named n args).hasVars = false ↔ ∀ a ∈ args, a.hasVars = false := by
  simp [hasVars, varOccurrences, varOccurrencesAll_eq_flatMap]

theorem hasVars_eq_false_iff : t.hasVars = false ↔ t.vars = [] := by
  unfold hasVars vars
  cases t.varOccurrences with
  | nil => simp
  | cons x xs => simp [List.eraseDups_cons]

/-- Replacing variables leaves a type without variables as it is. -/
theorem substitute_of_hasVars {s : Substitution} (h : t.hasVars = false) : t.substitute s = t := by
  induction t using ind with
  | var x => simp [hasVars, varOccurrences] at h
  | named n args ih =>
    rw [substitute, substituteAll_eq_map,
      List.map_congr_left fun a ha => ih a ha (hasVars_named.1 h a ha), List.map_id']

/-! ## Written types -/

/-- The arguments read so far have no variables. -/
def OpenTypes.Ground (stack : OpenTypes) : Prop := ∀ e ∈ stack, ∀ a ∈ e.2, a.hasVars = false

namespace Reading

variable {x y : Reading}

/-- What was read so far has no variables. -/
def Ground : Reading → Prop
  | .start stack | .named _ stack => OpenTypes.Ground stack
  | .closed t stack => t.hasVars = false ∧ OpenTypes.Ground stack

theorem ground_afterType {stack : OpenTypes} (ht : t.hasVars = false) (hs : stack.Ground)
    (h : afterType t stack l = .ok y) : y.Ground := by
  cases stack with
  | nil => cases h
  | cons e outer =>
    obtain ⟨n, args⟩ := e
    have hargs : ∀ a ∈ args ++ [t], a.hasVars = false := fun a ha =>
      (List.mem_append.1 ha).elim (hs (n, args) List.mem_cons_self a)
        fun ha => List.mem_singleton.1 ha ▸ ht
    have houter : OpenTypes.Ground outer := fun e he => hs e (List.mem_cons_of_mem _ he)
    simp only [afterType] at h
    split at h
    · cases h
      exact List.forall_mem_cons.2 ⟨hargs, houter⟩
    · split at h
      · cases h
        exact ⟨hasVars_named.2 hargs, houter⟩
      · cases h

theorem Ground.next (hx : x.Ground) (h : x.next l = .ok y) : y.Ground := by
  unfold Reading.next at h
  split at h
  · split at h
    · cases h
      exact hx
    · cases h
  · cases h
  · split at h
    · cases h
      exact List.forall_mem_cons.2 ⟨List.forall_mem_nil _, hx⟩
    · exact ground_afterType (hasVars_named.2 (by simp)) hx h
  · exact ground_afterType hx.1 hx.2 h

theorem Ground.foldlM (hx : x.Ground) (h : ls.foldlM Reading.next x = .ok y) : y.Ground := by
  induction ls generalizing x with
  | nil =>
    cases h
    exact hx
  | cons l ls ih =>
    rw [List.foldlM_cons] at h
    obtain ⟨z, hz, h⟩ := bind_eq_ok.1 h
    exact ih (hx.next hz) h

theorem Ground.finish (hx : x.Ground) (h : x.finish = .ok t) : t.hasVars = false := by
  unfold Reading.finish at h
  split at h <;> cases h
  · exact hasVars_named.2 (by simp)
  · exact hx.1

end Reading

/-- **A type that is read has no variables.** -/
theorem hasVars_of_parse {text : String} (h : parse text = .ok t) : t.hasVars = false := by
  obtain ⟨x, hx, h⟩ := bind_eq_ok.1 h
  have hstart : (Reading.start []).Ground := List.forall_mem_nil _
  exact (hstart.foldlM hx).finish h

end TypeExpr

/-! ## Tables -/

theorem exists_of_mapM {α β ε : Type} {f : α → Except ε β} {l : List α} {l' : List β}
    (h : l.mapM f = .ok l') : ∀ b ∈ l', ∃ a ∈ l, f a = .ok b := by
  induction l generalizing l' with
  | nil =>
    cases h
    simp
  | cons a l ih =>
    rw [List.mapM_cons] at h
    obtain ⟨b, hb, h⟩ := bind_eq_ok.1 h
    obtain ⟨bs, hbs, h⟩ := bind_eq_ok.1 h
    cases h
    refine List.forall_mem_cons.2 ⟨⟨a, List.mem_cons_self, hb⟩, fun x hx => ?_⟩
    obtain ⟨y, hy, e⟩ := ih hbs x hx
    exact ⟨y, List.mem_cons_of_mem _ hy, e⟩

theorem NameMap.mem_of_ofList {α : Type} {l : List (String × α)} {e : String × α}
    (h : e ∈ (NameMap.ofList l).toList) : e ∈ l := by
  have hfold (m : NameMap α) (h : e ∈ (l.foldl (fun m e => m.insert e.1 e.2) m).toList) :
      e ∈ m.toList ∨ e ∈ l := by
    clear * - h
    induction l generalizing m with
    | nil => exact .inl h
    | cons x l ih =>
      rcases ih _ h with h | h
      · exact (mem_insertEntry h).elim (fun e => .inr (e ▸ List.mem_cons_self)) .inl
      · exact .inr (List.mem_cons_of_mem _ h)
  exact (hfold empty h).resolve_left List.not_mem_nil

namespace FieldReader

variable {α : Type} {name : String} {f : Value → Except Fault α} {fs : Fields} {a default : α}

theorem exists_of_find? (h : find? name f fs = .ok (some a)) : ∃ v, f v = .ok a := by
  unfold find? at h
  split at h
  · cases h
  · split at h
    · next ha =>
      cases h
      exact ⟨_, ha⟩
    · cases h

theorem exists_of_required (h : required name f fs = .ok a) : ∃ v, f v = .ok a := by
  unfold required at h
  split at h
  · next ha =>
    cases h
    exact exists_of_find? ha
  · cases h
  · cases h

/-- A field that may be left out has been read, or it has been left out. -/
theorem eq_or_exists_of_optional (h : optional name f default fs = .ok a) :
    a = default ∨ ∃ v, f v = .ok a := by
  unfold optional at h
  split at h
  · next o ho =>
    cases h
    cases o with
    | none => exact .inl rfl
    | some a => exact .inr (exists_of_find? ho)
  · cases h

end FieldReader

namespace Value

variable {α : Type} {v : Value}

theorem exists_of_readFields {d : Dialect} {names : List String} {p : FieldReader Unit}
    {r : FieldReader α} {a : α} (h : v.readFields d names (p *> r) = .ok a) :
    ∃ fs, r fs = .ok a := by
  obtain ⟨fs, -, h⟩ := bind_eq_ok.1 h
  split at h
  · next b hb =>
    split at h
    · cases h
    · cases h
      obtain ⟨g, x, hg, hx, rfl⟩ := FieldReader.seq_eq_ok_iff.1 hb
      obtain ⟨-, -, rfl⟩ := FieldReader.map_eq_ok_iff.1 hg
      exact ⟨fs, hx⟩
  · cases h

theorem exists_of_asRecord {d : Dialect} {names : List String} {r : FieldReader α} {a : α}
    (h : v.asRecord d names r = .ok a) : ∃ fs, r fs = .ok a :=
  exists_of_readFields h

theorem exists_of_asType {t : TypeExpr} (h : v.asType = .ok t) :
    ∃ text, TypeExpr.parse text = .ok t := by
  obtain ⟨s, -, h⟩ := bind_eq_ok.1 h
  split at h
  · next hp =>
    cases h
    exact ⟨s, hp⟩
  · cases h

theorem hasVars_of_asType {t : TypeExpr} (h : v.asType = .ok t) : t.hasVars = false := by
  obtain ⟨s, hs⟩ := exists_of_asType h
  exact TypeExpr.hasVars_of_parse hs

theorem exists_of_asOption {f : Value → Except Fault α} {a : α}
    (h : v.asOption f = .ok (some a)) : ∃ v, f v = .ok a := by
  unfold asOption at h
  split at h
  · cases h
  · obtain ⟨x, hx, h⟩ := bind_eq_ok.1 h
    cases h
    exact ⟨_, hx⟩

theorem exists_of_asList {f : Value → Except Fault α} {l : List α}
    (h : v.asList f = .ok l) : ∀ a ∈ l, ∃ v, f v = .ok a := by
  unfold asList at h
  split at h
  · intro a ha
    obtain ⟨x, -, hx⟩ := exists_of_mapM h a ha
    exact ⟨x, hx⟩
  · cases h

theorem exists_of_asMap {f : Value → Except Fault α} {m : NameMap α}
    (h : v.asMap f = .ok m) : ∀ e ∈ m.toList, ∃ v, f v = .ok e.2 := by
  unfold asMap at h
  split at h
  · obtain ⟨l, hl, h⟩ := bind_eq_ok.1 h
    cases h
    intro e he
    obtain ⟨x, -, hx⟩ := exists_of_mapM hl e (NameMap.mem_of_ofList he)
    obtain ⟨a, ha, hx⟩ := bind_eq_ok.1 hx
    cases hx
    exact ⟨_, ha⟩
  · cases h

end Value

namespace FieldReader

variable {α : Type} {name : String} {f : Value → Except Fault α} {fs : Fields} {a : α}

theorem exists_of_optional_asList {l : List α}
    (h : optional name (Value.asList f) [] fs = .ok l) : ∀ a ∈ l, ∃ v, f v = .ok a := by
  rcases eq_or_exists_of_optional h with rfl | ⟨v, hv⟩
  · exact List.forall_mem_nil _
  · exact Value.exists_of_asList hv

theorem exists_of_optional_asOption
    (h : optional name (Value.asOption f) none fs = .ok (some a)) : ∃ v, f v = .ok a := by
  rcases eq_or_exists_of_optional h with h | ⟨v, hv⟩
  · cases h
  · exact Value.exists_of_asOption hv

theorem exists_of_nullable (h : nullable name f fs = .ok (some a)) : ∃ v, f v = .ok a := by
  unfold nullable at h
  split at h
  · exact exists_of_optional_asOption h
  · obtain ⟨v, hv⟩ := exists_of_required h
    exact Value.exists_of_asOption hv

end FieldReader

theorem Claim.hasVars_of_ofValue {d : Dialect} {v : Value} {c : Claim}
    (h : Claim.ofValue d v = .ok c) : c.type.hasVars = false := by
  obtain ⟨fs, h⟩ := Value.exists_of_asRecord h
  simp only [FieldReader.seq_eq_ok_iff, FieldReader.map_eq_ok_iff] at h
  obtain ⟨_, _, ⟨_, _, ⟨t, ht, rfl⟩, -, rfl⟩, -, rfl⟩ := h
  obtain ⟨w, hw⟩ := FieldReader.exists_of_required ht
  exact Value.hasVars_of_asType hw

namespace TypeInfo

variable {d : Dialect} {v : Value} {info : TypeInfo}

/-- The types of a description that is read are read themselves. -/
theorem exists_of_ofValue (h : ofValue d v = .ok info) : ∃ fs : Fields,
    FieldReader.optional "supertypes" (Value.asList Value.asType) [] fs = .ok info.supertypes ∧
    FieldReader.optional "wraps" (Value.asOption Value.asType) none fs = .ok info.wraps ∧
    FieldReader.optional "intercepts" (Value.asOption Value.asType) none fs =
      .ok info.intercepts ∧
    FieldReader.optional "constructor" (Value.asOption (Value.asList (Claim.ofValue d))) none fs =
      .ok info.constructor := by
  obtain ⟨fs, h⟩ := Value.exists_of_asRecord h
  simp only [FieldReader.seq_eq_ok_iff, FieldReader.map_eq_ok_iff] at h
  obtain ⟨_, tags, ⟨_, o, ⟨_, builtin, ⟨_, optional, ⟨_, intercepts, ⟨_, wraps, ⟨_, supertypes,
    ⟨_, params, ⟨kind, -, rfl⟩, -, rfl⟩, hs, rfl⟩, hw, rfl⟩, hi, rfl⟩, -, rfl⟩, -, rfl⟩, ho, rfl⟩,
    -, rfl⟩ := h
  exact ⟨fs, hs, hw, hi, ho⟩

theorem hasVars_of_ofValue (h : ofValue d v = .ok info) :
    ∀ cs, info.constructor = some cs → ∀ c ∈ cs, c.type.hasVars = false := by
  obtain ⟨fs, -, -, -, ho⟩ := exists_of_ofValue h
  intro cs hcs c hc
  rw [hcs] at ho
  obtain ⟨w, hw⟩ := FieldReader.exists_of_optional_asOption ho
  obtain ⟨w, hw⟩ := Value.exists_of_asList hw c hc
  exact Claim.hasVars_of_ofValue hw

/-- Supertypes and wrapped values are described without variables: what they depend on is written as
the names of parameters. -/
def Written (info : TypeInfo) : Prop :=
  ∀ p ∈ info.supertypes ++ info.wraps.toList, p.hasVars = false

theorem written_of_ofValue (h : ofValue d v = .ok info) : info.Written := by
  obtain ⟨fs, hs, hw, -, -⟩ := exists_of_ofValue h
  intro p hp
  rcases List.mem_append.1 hp with hp | hp
  · obtain ⟨w, hw⟩ := FieldReader.exists_of_optional_asList hs p hp
    exact Value.hasVars_of_asType hw
  · rw [Option.mem_toList.1 hp] at hw
    obtain ⟨w, hw⟩ := FieldReader.exists_of_optional_asOption hw
    exact Value.hasVars_of_asType hw

end TypeInfo

namespace Universe

/-- No constructor claims a type with a variable. -/
def Ground (u : Universe) : Prop :=
  ∀ t a, u.autoConstructor? t = some a → ∀ c ∈ a.claims, c.type.hasVars = false

/-- No supertype and no wrapped value is described with a variable. -/
def Written (u : Universe) : Prop := ∀ e ∈ u.types.toList, e.2.Written

instance (u : Universe) : Decidable u.Written :=
  inferInstanceAs (Decidable (∀ e ∈ u.types.toList, ∀ p ∈ e.2.supertypes ++ e.2.wraps.toList, _))

variable {u : Universe} {d : Dialect} {v : Value}

/-- The descriptions of a table that is read are read. -/
theorem exists_of_ofValue (h : Universe.ofValue d v = .ok u) :
    ∀ e ∈ u.types.toList, ∃ w, TypeInfo.ofValue d w = .ok e.2 := by
  obtain ⟨types, ht, h⟩ := bind_eq_ok.1 h
  cases h
  exact Value.exists_of_asMap ht

/-- **In a table that is read no constructor claims a type with a variable.** -/
theorem ground_of_ofValue (h : Universe.ofValue d v = .ok u) : u.Ground := by
  intro t a ha c hc
  obtain ⟨n, info, -, hm, hcs⟩ := exists_of_autoConstructor? ha
  obtain ⟨w, hw⟩ := exists_of_ofValue h (n, info) hm
  exact TypeInfo.hasVars_of_ofValue hw _ hcs c hc

/-- **In a table that is read nothing is described with a variable.** -/
theorem written_of_ofValue (h : Universe.ofValue d v = .ok u) : u.Written := fun e he => by
  obtain ⟨w, hw⟩ := exists_of_ofValue h e he
  exact TypeInfo.written_of_ofValue hw

end Universe

end Wiring
