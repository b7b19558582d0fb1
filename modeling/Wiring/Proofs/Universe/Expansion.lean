import Wiring.Manifest.Encoding
import Wiring.Proofs.TypeExpr.Size
import Wiring.Proofs.Universe.Reachability
/-!
# Which searches of the supertypes end

A search ends if it finds what it looks for, or if the types that it can visit are finitely many;
it ends in no other case (`exists_assignable?_iff`, `exists_register?_iff`). In a table of generic
types they need not be finitely many: a description that hands a larger type on to itself, as
`Nest<T> : Nest<List<T>>` does, reaches larger and larger types (`nest`).

What is needed is that nothing that grows comes back to where it came from. `Nonexpansive` says so of
the descriptions: their parameters can be ranked such that an argument is handed on to a parameter of
the same or a higher rank, and to one of a higher rank if it is handed on inside of another type. In
such a table the arguments in all types that are reached are bounded in size by their ranks
(`Ranked.step`), cyclic and mutually recursive descriptions included, and all searches end
(`Nonexpansive.finitary`).
-/

namespace Wiring

open TypeExpr

/-- What a parameter stands for is an argument at a position of the parameter. -/
theorem TypeInfo.exists_of_argumentsOf {info : TypeInfo} {t v : TypeExpr} {x : String}
    (h : (info.argumentsOf t).get? x = some v) :
    ∃ i, (x, i) ∈ info.params.zipIdx ∧ (v, i) ∈ t.args.zipIdx := by
  unfold argumentsOf at h
  split at h
  · obtain ⟨i, hi, e⟩ := List.getElem_of_mem (NameMap.mem_of_ofList (NameMap.mem_of_get? h))
    rw [List.getElem_zip] at e
    rw [List.length_zip] at hi
    refine ⟨i, ?_, ?_⟩
    · exact List.mem_zipIdx_iff_getElem?.2
        (List.getElem?_eq_some_iff.2 ⟨by omega, congrArg Prod.fst e⟩)
    · exact List.mem_zipIdx_iff_getElem?.2
        (List.getElem?_eq_some_iff.2 ⟨by omega, congrArg Prod.snd e⟩)
  · cases h

namespace Universe

variable {u : Universe} {t s q : TypeExpr} {n m k D : Nat} {rank : String → Nat → Fin (k + 1)}

/-! ## Searches that end -/

/-- A search that finds nothing has visited all that is reached. -/
theorem finite_of_assignable? (h : u.assignable? n s t = some false) :
    {r | u.Reaches s r}.Finite := by
  obtain ⟨a, ha, h⟩ := Option.bind_eq_some_iff.1 h
  cases a with
  | some a => cases h
  | none =>
    obtain ⟨l, hl⟩ := exists_upwardFrom?_of_first ha fun _ => Iff.rfl
    exact finite_of_upward? hl (List.mem_singleton_self s)

/-- **The question about a pair of types is answered exactly if** the answer is yes, or the first
type reaches finitely many. -/
theorem exists_assignable?_iff :
    (∃ n b, u.assignable? n s t = some b) ↔ u.Reaches s t ∨ {r | u.Reaches s r}.Finite := by
  constructor
  · rintro ⟨n, b, h⟩
    cases b with
    | true => exact .inl ((assignable?_iff h).1 rfl)
    | false => exact .inr (finite_of_assignable? h)
  · rintro (h | h)
    · obtain ⟨n, h⟩ := assignable_iff.2 h
      exact ⟨n, true, h⟩
    · exact exists_assignable? h t

theorem exists_wrappable?_iff : (∃ n b, u.wrappable? n s t = some b) ↔
    u.Wraps s t ∨ ∀ inner, u.unwrap? s = some inner → {r | u.Reaches inner r}.Finite := by
  unfold wrappable? Wraps
  cases u.unwrap? s with
  | none => simp
  | some inner => simpa using exists_assignable?_iff (s := inner)

/-- **A draft can be declared exactly if** it is a template, or what its type and the type of the
wrapped value reach is finite. -/
theorem exists_register?_iff {c : Catalog} {d : Draft} : (∃ n x, c.register? u n d = some x) ↔
    (c.declare d).isTemplate = true ∨ {r | u.Reaches (c.declare d).type r}.Finite ∧
      ∀ inner, u.unwrap? (c.declare d).type = some inner → {r | u.Reaches inner r}.Finite := by
  rw [← exists_ofDeclaration?_iff]
  by_cases ht : (c.declare d).isTemplate = true
  · simp [Catalog.register?, ht]
  · simp only [Catalog.register?, ht, Bool.false_eq_true, if_false, false_or]
    constructor
    · rintro ⟨n, x, h⟩
      obtain ⟨s, hs, -⟩ := Option.bind_eq_some_iff.1 h
      exact ⟨n, s, hs⟩
    · rintro ⟨n, s, hs⟩
      exact ⟨n, _, Option.bind_eq_some_iff.2 ⟨s, hs, rfl⟩⟩

/-! ## Ranked descriptions -/

/-- The types of which the descriptions say that they are supertypes, over the parameters. -/
def superShapes (u : Universe) : List TypeExpr :=
  u.types.toList.flatMap fun e => e.2.supertypes.map (·.bind e.2.params)

theorem mem_superShapes {e : String × TypeInfo} {p : TypeExpr} (he : e ∈ u.types.toList)
    (hp : p ∈ e.2.supertypes) : p.bind e.2.params ∈ u.superShapes :=
  List.mem_flatMap.2 ⟨e, he, List.mem_map_of_mem hp⟩

/-- The parameters of the types, given by name and position, are ranked: wherever in a supertype a
parameter is handed on, it goes to a position of the same or a higher rank, and to one of a higher
rank if it goes there inside of another type. -/
def RankedBy (u : Universe) (rank : String → Nat → Fin (k + 1)) : Prop :=
  ∀ e ∈ u.types.toList, ∀ p ∈ e.2.supertypes, ∀ q ∈ (p.bind e.2.params).parts,
    ∀ a ∈ q.args.zipIdx, ∀ x ∈ e.2.params.zipIdx, x.1 ∈ a.1.varOccurrences →
      if a.1 = .var x.1 then rank e.1 x.2 ≤ rank q.name a.2 else rank e.1 x.2 < rank q.name a.2

instance (u : Universe) (rank : String → Nat → Fin (k + 1)) : Decidable (u.RankedBy rank) :=
  inferInstanceAs (Decidable (∀ e ∈ u.types.toList, ∀ p ∈ e.2.supertypes, _))

/-- No description hands an argument on, inside of a larger type, to where it came from. -/
def Nonexpansive (u : Universe) : Prop :=
  ∃ k, ∃ rank : String → Nat → Fin (k + 1), u.RankedBy rank

/-- At any depth the arguments are bounded in number by `D`, and in size by `D` and their ranks. -/
def Ranked (rank : String → Nat → Fin (k + 1)) (D : Nat) (t : TypeExpr) : Prop :=
  ∀ q ∈ t.parts, q.args.length ≤ D ∧ ∀ a ∈ q.args.zipIdx, a.1.size ≤ D ^ (rank q.name a.2 + 1 : Nat)

theorem ranked_of_size (h : t.size ≤ D) : Ranked rank D t := by
  have hD : 0 < D := t.size_pos.trans_le h
  intro q hq
  have hsize : q.size ≤ D := (size_le_of_mem_parts hq).trans h
  cases q with
  | var x => exact ⟨Nat.zero_le _, by simp [args]⟩
  | named m args =>
    refine ⟨length_lt_size.le.trans hsize, fun a ha => ?_⟩
    have hlt : a.1.size < (named m args).size := size_lt_of_mem (List.fst_mem_of_mem_zipIdx ha)
    exact (hlt.le.trans hsize).trans (Nat.le_self_pow (Nat.succ_ne_zero _) D)

/-- An argument that is handed on stays within the bound of its new place: as it is, it has the rank
of that place or a lower one, and inside of another type, the size of which is at most `D`, a lower
one. -/
theorem size_substitute_le_of_rank {b : TypeExpr} {σ : Substitution} {j : Nat} (hb : b.size ≤ D)
    (h : ∀ x ∈ b.varOccurrences, ∀ v, σ.get? x = some v →
      ∃ i, v.size ≤ D ^ (i + 1) ∧ if b = var x then i ≤ j else i < j) :
    (b.substitute σ).size ≤ D ^ (j + 1) := by
  have hD : 0 < D := b.size_pos.trans_le hb
  cases b with
  | var x =>
    rw [substitute]
    cases hx : σ.get? x with
    | none => exact Nat.one_le_pow _ _ hD
    | some v =>
      obtain ⟨i, hv, hi⟩ := h x (by simp [varOccurrences]) v hx
      rw [if_pos rfl] at hi
      exact hv.trans (Nat.pow_le_pow_right hD (by omega))
  | named l bs =>
    have hsize : ((named l bs).substitute σ).size ≤ (named l bs).size * D ^ j := by
      refine size_substitute_le (Nat.pow_pos hD) fun x hx v hv => ?_
      obtain ⟨i, hv, hi⟩ := h x hx v hv
      rw [if_neg TypeExpr.noConfusion] at hi
      exact hv.trans (Nat.pow_le_pow_right hD (by omega))
    calc ((named l bs).substitute σ).size
        ≤ (named l bs).size * D ^ j := hsize
      _ ≤ D * D ^ j := Nat.mul_le_mul_right _ hb
      _ = D ^ (j + 1) := (Nat.pow_succ' ..).symm

theorem Ranked.of_mem_parts (h : Ranked rank D t) (hs : s ∈ t.parts) : Ranked rank D s :=
  fun q hq => h q (mem_parts_trans hq hs)

theorem Ranked.of_mem_args {i : Nat} {m : String} {args : List TypeExpr}
    (h : Ranked rank D (named m args)) (hs : (s, i) ∈ args.zipIdx) :
    Ranked rank D s ∧ s.size ≤ D ^ (rank m i + 1 : Nat) :=
  ⟨h.of_mem_parts (mem_parts_named.2 (.inr ⟨s, List.fst_mem_of_mem_zipIdx hs, self_mem_parts s⟩)),
    (h _ (self_mem_parts _)).2 (s, i) hs⟩

/-- **Replacing variables keeps the arguments within their bounds**, if what they are replaced by
goes to places of its own rank or a higher one, and of a higher one if inside of another type. -/
theorem ranked_substitute {p : TypeExpr} {σ : Substitution} (hp : p.size ≤ D)
    (hσ : ∀ x v, σ.get? x = some v → Ranked rank D v)
    (h : ∀ q ∈ p.parts, ∀ b ∈ q.args.zipIdx, ∀ x ∈ b.1.varOccurrences, ∀ v, σ.get? x = some v →
      ∃ i : Nat, v.size ≤ D ^ (i + 1) ∧
        if b.1 = var x then i ≤ rank q.name b.2 else i < rank q.name b.2) :
    Ranked rank D (p.substitute σ) := by
  intro q' hq'
  rcases mem_parts_substitute hq' with ⟨q, hq, rfl⟩ | ⟨x, -, v, hv, hq'⟩
  · cases q with
    | var x =>
      rw [substitute]
      cases hv : σ.get? x with
      | none => exact ⟨Nat.zero_le _, by simp [TypeExpr.args]⟩
      | some v => exact hσ x v hv v (self_mem_parts v)
    | named l bs =>
      have hpart : (named l bs).size ≤ D := (size_le_of_mem_parts hq).trans hp
      rw [substitute_named]
      refine ⟨?_, fun a ha => ?_⟩
      · rw [TypeExpr.args, List.length_map]
        exact length_lt_size.le.trans hpart
      · rw [TypeExpr.args, List.zipIdx_map] at ha
        obtain ⟨⟨b, j⟩, hb, rfl⟩ := List.mem_map.1 ha
        have hmem : b ∈ bs := List.fst_mem_of_mem_zipIdx hb
        exact size_substitute_le_of_rank ((size_lt_of_mem hmem).le.trans hpart)
          (h _ hq (b, j) hb)
  · exact hσ x v hv q' hq'

/-- **A step keeps the arguments within their bounds**, if what the descriptions say is no larger
than the bound itself. -/
theorem Ranked.step (hr : u.RankedBy rank) (hD : ∀ p ∈ u.superShapes, p.size ≤ D)
    (h : Ranked rank D t) (hs : u.Step t s) : Ranked rank D s := by
  obtain ⟨m, args, info, p, rfl, -, hm, hp, rfl⟩ := exists_of_step hs
  refine ranked_substitute (hD _ (mem_superShapes hm hp)) (fun x v hv => ?_)
    fun q hq b hb x hx v hv => ?_
  · obtain ⟨i, -, hi⟩ := TypeInfo.exists_of_argumentsOf hv
    exact (h.of_mem_args hi).1
  · obtain ⟨i, hxi, hi⟩ := TypeInfo.exists_of_argumentsOf hv
    exact ⟨rank m i, (h.of_mem_args hi).2, hr _ hm p hp q hq b hb (x, i) hxi hx⟩

theorem Ranked.reaches (hr : u.RankedBy rank) (hD : ∀ p ∈ u.superShapes, p.size ≤ D)
    (h : Ranked rank D t) (hs : u.Reaches t s) : Ranked rank D s := by
  induction hs with
  | refl => exact h
  | step hs _ ih => exact ih (h.step hr hD hs)

theorem Ranked.size_le (h : Ranked rank D t) (hD : 0 < D) : t.size ≤ D * D ^ (k + 1) + 1 := by
  cases t with
  | var x => exact Nat.le_add_left 1 _
  | named m args =>
    obtain ⟨hlen, hargs⟩ := h _ (self_mem_parts _)
    have hsize : (named m args).size ≤ args.length * D ^ (k + 1) + 1 := by
      refine TypeExpr.size_le fun a ha => ?_
      obtain ⟨i, hi, rfl⟩ := List.getElem_of_mem ha
      have hi : (args[i], i) ∈ args.zipIdx :=
        List.mem_zipIdx_iff_getElem?.2 (List.getElem?_eq_getElem hi)
      refine (hargs (args[i], i) hi).trans ?_
      exact Nat.pow_le_pow_right hD (by omega)
    exact hsize.trans (Nat.succ_le_succ (Nat.mul_le_mul_right _ hlen))

/-- What is reached is built from the names and variables that the type and the descriptions are
built from. -/
theorem over_of_reaches {N V : String → Prop} (h : u.Reaches t s) (ht : t.Over N V)
    (hu : ∀ p ∈ u.superShapes, p.Over N V) : s.Over N V := by
  induction h with
  | refl => exact ht
  | step hs _ ih =>
    refine ih ?_
    obtain ⟨m, args, info, p, rfl, -, hm, hp, rfl⟩ := exists_of_step hs
    refine (hu _ (mem_superShapes hm hp)).substitute_of_vars fun x hx => ?_
    rw [substitute]
    cases hv : (info.argumentsOf (named m args)).get? x with
    | none => exact .var hx
    | some v =>
      obtain ⟨i, -, hi⟩ := TypeInfo.exists_of_argumentsOf hv
      exact (over_named.1 ht).2 v (List.fst_mem_of_mem_zipIdx hi)

/-- **Nothing grows without bound in a nonexpansive table.** -/
theorem Nonexpansive.finitary (h : u.Nonexpansive) : u.Finitary := by
  obtain ⟨k, rank, hr⟩ := h
  intro t
  let shapes := t :: u.superShapes
  let D := (shapes.map size).sum
  have hD (p : TypeExpr) (hp : p ∈ shapes) : p.size ≤ D :=
    List.le_sum_of_mem (List.mem_map_of_mem hp)
  have hover (p : TypeExpr) (hp : p ∈ shapes) :
      p.Over (· ∈ shapes.flatMap typeNames) (· ∈ shapes.flatMap varOccurrences) :=
    ((over_vars (over_true p)).of_typeNames fun x hx => List.mem_flatMap.2 ⟨p, hp, hx⟩).mono
      (fun _ => id) fun x hx => List.mem_flatMap.2 ⟨p, hp, mem_vars.1 hx⟩
  have ht : t ∈ shapes := List.mem_cons_self
  refine (finite_bounded (shapes.flatMap typeNames) (shapes.flatMap varOccurrences)
    (D * D ^ (k + 1) + 1)).subset fun s hs => ⟨?_, ?_⟩
  · exact over_of_reaches hs (hover t ht) fun p hp => hover p (List.mem_cons_of_mem _ hp)
  · have hranked : Ranked rank D s :=
      Ranked.reaches hr (fun p hp => hD p (List.mem_cons_of_mem _ hp)) (ranked_of_size (hD t ht)) hs
    exact hranked.size_le (t.size_pos.trans_le (hD t ht))

/-! ## A table in which searches never end -/

/-- A nest is a nest of lists of what it is a nest of. -/
def nest : Universe where
  types := .ofList
    [("Nest", { params := ["T"],
                supertypes := [.named "Nest" [.named "List" [.named "T" []]]] })]

/-- The table as it is written. -/
def nestValue : Value :=
  .record [("types", .record [("Nest", .record
    [("params", .list [.text "T"]), ("supertypes", .list [.text "Nest<List<T>>"])])])]

/-- Lists of lists of whole numbers, to the given depth. -/
def lists : Nat → TypeExpr
  | 0 => named "Int" []
  | n + 1 => named "List" [lists n]

/-- A nest of such lists. -/
def nestOf (n : Nat) : TypeExpr := named "Nest" [lists n]

theorem supertypes_nestOf (n : Nat) : nest.supertypes (nestOf n) = [nestOf (n + 1)] := rfl

theorem size_lists (n : Nat) : (lists n).size = n + 1 := by
  induction n with
  | zero => rfl
  | succ n ih => rw [lists, size_named, List.map_singleton, List.sum_singleton, ih]

theorem lists_injective : Function.Injective lists := fun n m h => by
  have hsize := congrArg size h
  rwa [size_lists, size_lists, Nat.add_right_cancel_iff] at hsize

theorem hasVars_lists (k : Nat) : (lists k).hasVars = false := by
  induction k with
  | zero => rfl
  | succ k ih => simpa [lists, hasVars_named] using ih

theorem reaches_nestOf (n : Nat) : nest.Reaches (nestOf 0) (nestOf n) := by
  induction n with
  | zero => exact .refl _
  | succ n ih =>
    refine ih.tail ?_
    rw [Step, supertypes_nestOf]
    exact List.mem_singleton_self _

/-- A nest reaches larger and larger nests, -/
theorem infinite_nestOf : {r | nest.Reaches (nestOf 0) r}.Infinite := by
  refine Set.infinite_of_injective_forall_mem (f := nestOf) (fun n m h => ?_) reaches_nestOf
  exact lists_injective (List.cons.inj (named.inj h).2).1

/-- and nothing else. -/
theorem exists_nestOf (h : nest.Reaches t s) (ht : ∃ n, t = nestOf n) : ∃ n, s = nestOf n := by
  induction h with
  | refl => exact ht
  | step hs _ ih =>
    obtain ⟨n, rfl⟩ := ht
    exact ih ⟨n + 1, List.mem_singleton.1 (supertypes_nestOf n ▸ hs)⟩

/-- **No budget suffices** to find out that a nest of whole numbers is no text, or to declare one,
in a table that is read and accepted. -/
theorem searches_of_nest_never_end :
    Manifest.ofValue .toml nestValue = .ok { types := nest } ∧
    Manifest.validate { types := nest } = .ok () ∧
    ∀ n, nest.assignable? n (nestOf 0) (named "Int" []) = none ∧
      Catalog.register? ∅ nest n { name := "nest", type := nestOf 0 } = none := by
  refine ⟨rfl, rfl, fun n => ⟨?_, ?_⟩⟩
  · refine Option.eq_none_iff_forall_ne_some.2 fun b h => ?_
    rcases exists_assignable?_iff.1 ⟨n, b, h⟩ with h | h
    · obtain ⟨m, hm⟩ := exists_nestOf h ⟨0, rfl⟩
      exact TypeExpr.noConfusion hm fun hname _ => absurd hname (by decide)
    · exact infinite_nestOf h
  · refine Option.eq_none_iff_forall_ne_some.2 fun x h => ?_
    rcases exists_register?_iff.1 ⟨n, x, h⟩ with h | ⟨h, -⟩
    · exact absurd h (by decide +kernel)
    · exact infinite_nestOf h

/-! ## The main result -/

/-- **Searches end, unless types grow.** In every table:

* whether one type can be used for another, itself or through the value inside, is answered exactly
  if the answer is yes or what the first one reaches is finite; and a draft can be declared exactly
  if it is a template or what its type and the type of the wrapped value reach is finite;
* all of this is so if the descriptions are nonexpansive, be they cyclic or not. -/
theorem searches_end_unless_types_grow (u : Universe) :
    (∀ s t, (∃ n b, u.assignable? n s t = some b) ↔
      u.Reaches s t ∨ {r | u.Reaches s r}.Finite) ∧
    (∀ s t, (∃ n b, u.wrappable? n s t = some b) ↔
      u.Wraps s t ∨ ∀ inner, u.unwrap? s = some inner → {r | u.Reaches inner r}.Finite) ∧
    (∀ (c : Catalog) d, (∃ n x, c.register? u n d = some x) ↔
      (c.declare d).isTemplate = true ∨ {r | u.Reaches (c.declare d).type r}.Finite ∧
        ∀ inner, u.unwrap? (c.declare d).type = some inner → {r | u.Reaches inner r}.Finite) ∧
    (u.Nonexpansive → u.Finitary ∧
      (∀ s t, ∃ m, ∀ n, m ≤ n → ∃ b, u.assignable? n s t = some b) ∧
      (∀ s t, ∃ m, ∀ n, m ≤ n → ∃ b, u.wrappable? n s t = some b) ∧
      ∀ (c : Catalog) d, ∃ m, ∀ n, m ≤ n → ∃ x, c.register? u n d = some x) := by
  refine ⟨fun _ _ => exists_assignable?_iff, fun _ _ => exists_wrappable?_iff,
    fun _ _ => exists_register?_iff, fun h => ?_⟩
  have hf : u.Finitary := h.finitary
  refine ⟨hf, fun s t => ?_, fun s t => ?_, fun c d => ?_⟩
  · exact (decides_assignable? (hf s)).answers
  · exact (decides_wrappable? fun inner _ => hf inner).answers
  · obtain ⟨m, x, hx⟩ := hf.exists_register? c d
    exact ⟨m, fun n hn => ⟨x, Catalog.register?_mono hn hx⟩⟩

/-- An edge is a node of its source, and a node is an edge from its content to a list of it. -/
def graph : Universe where
  types := .ofList
    [("Node", { params := ["T"],
                supertypes := [.named "Edge" [.named "T" [], .named "List" [.named "T" []]]] }),
      ("Edge", { params := ["A", "B"], supertypes := [.named "Node" [.named "A" []]] })]

/-- In the table of nodes and edges, which refer to each other, all searches end: the list is handed
on to the second parameter of edges, which is handed on to nothing. -/
theorem searches_end_unless_types_grow_graph : graph.Nonexpansive ∧
    (∃ m, ∀ n, m ≤ n → ∃ b, graph.assignable? n (named "Node" [named "Int" []])
      (named "Text" []) = some b) ∧
    ∃ m, ∀ n, m ≤ n → ∃ x, Catalog.register? ∅ graph n
      { name := "root", type := named "Node" [named "Int" []] } = some x := by
  have h : graph.Nonexpansive :=
    ⟨1, fun n i => if n = "Edge" ∧ i = 1 then 1 else 0, by decide +kernel⟩
  obtain ⟨-, -, -, hends⟩ := searches_end_unless_types_grow graph
  obtain ⟨-, hassignable, -, hregister⟩ := hends h
  exact ⟨h, hassignable _ _, hregister _ _⟩

end Universe

end Wiring
