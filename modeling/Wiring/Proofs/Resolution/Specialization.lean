import Wiring.Proofs.Resolution.Termination
import Wiring.Proofs.Resolution.Groundness
import Wiring.Proofs.Resolution.Recursion
import Wiring.Proofs.Resolution.Repetition
import Wiring.Proofs.Universe.Expansion
/-!
# Templates that are specialized for larger and larger types

What a specialized template claims may call for a template again, and for a larger type. No limit
keeps a round from going on like this forever (`Resolver.boxes_run_away`).

It is the only way in which a round without extensions does, if every type reaches finitely many
others: names and tags come from the drafts, so there are finitely many claims of a bounded size
(`Resolver.exists_encloses`). Claims are bounded if the sources are
(`Resolver.exists_claimsUpTo_of_sources`), and if no template hands an argument on, inside of
another type, to where it came from (`Resolver.Nonexpansive`): then the arguments in all claims are
bounded by the ranks of their places (`Declaration.RankedBy.ranked`), as they are in the supertypes
of a nonexpansive table.

`Resolver.specialization_ends_unless_claims_grow` puts this together.
-/

namespace Wiring

open TypeExpr Universe

/-! ## Ranked templates -/

/-- The template hands its arguments on by the ranks of their places. Wherever one of its claims has
a variable, as an argument or inside of one, each type with which a claimed type can be matched has
the variable as an argument as well, at a place of the same or a lower rank, and of a lower one if
it is inside of another type in the claim. -/
def Declaration.RankedBy {k : Nat} (u : Universe) (rank : String → Nat → Fin (k + 1))
    (d : Declaration) : Prop :=
  ∀ r, u.Shape d.type r → (∀ x ∈ d.type.vars, x ∈ r.vars) →
    ∀ c ∈ d.claims, ∀ q ∈ c.type.parts, ∀ a ∈ q.args.zipIdx, ∀ x ∈ a.1.varOccurrences,
      ∃ p ∈ r.parts, ∃ b ∈ p.args.zipIdx, b.1 = .var x ∧
        if a.1 = .var x then rank p.name b.2 ≤ rank q.name a.2
        else rank p.name b.2 < rank q.name a.2

/-- No template hands an argument on, inside of another type, to where it came from. -/
def Resolver.Nonexpansive (r : Resolver) (drafts : List Draft) : Prop :=
  ∃ k, ∃ rank : String → Nat → Fin (k + 1),
    ∀ d ∈ drafts, d.isTemplate = true → (d.declare 0).RankedBy r.types rank

section Ranked

variable {u : Universe} {k n D i : Nat} {rank : String → Nat → Fin (k + 1)} {t c r p v : TypeExpr}
  {x : String} {σ : Substitution} {d : Declaration}

/-- What a match binds an argument to is bounded by the rank of its place. -/
theorem Universe.Specializes.size_le (hs : Specializes t c r σ) (hc : Ranked rank D c)
    (hp : p ∈ r.parts) (hx : (var x, i) ∈ p.args.zipIdx) (hv : σ.get? x = some v) :
    v.size ≤ D ^ (rank p.name i + 1 : Nat) := by
  cases p with
  | var y => simp [args] at hx
  | named l bs =>
    have hpart : (named l bs).substitute σ ∈ (r.substitute σ).parts := substitute_mem_parts hp
    rw [(matched_of_matchWith hs.match_).becomes.eq, substitute_named] at hpart
    have hmem : (v, i) ∈ (bs.map (·.substitute σ)).zipIdx := by
      rw [List.zipIdx_map]
      exact List.mem_map.2 ⟨(var x, i), hx, by simp [substitute, hv]⟩
    exact ((hc.of_mem_parts hpart).of_mem_args hmem).2

/-- **What a ranked template claims is bounded if the claim it is specialized for is.** -/
theorem Declaration.RankedBy.ranked (h : d.RankedBy u rank) (hD : ∀ x ∈ d.claims, x.type.size ≤ D)
    (hu : u.unify? n d.type c = some (some σ)) (hc : Ranked rank D c) :
    ∀ x ∈ d.claims, Ranked rank D (x.type.substitute σ) := by
  obtain ⟨r, hr, hσ⟩ := exists_specializes hu
  intro x hx
  refine ranked_substitute (hD x hx)
    (fun y v hv => hc.of_mem_parts (mem_parts_of_matchWith hσ.match_ hv))
    fun q hq a ha y hy v hv => ?_
  obtain ⟨p, hp, ⟨b, i⟩, hb, rfl, hrank⟩ :=
    h r hr hσ.vars x hx q hq a ha y hy
  exact ⟨rank p.name i, hσ.size_le hc hp hb hv, hrank⟩

end Ranked

/-! ## Types of which nothing is known -/

namespace Universe

theorem info?_empty (t : TypeExpr) : ({} : Universe).info? t = none := by cases t <;> rfl

/-- If nothing is known of types, they reach themselves only. -/
theorem eq_of_reaches {t r : TypeExpr} (h : ({} : Universe).Reaches t r) : r = t := by
  cases h with
  | refl => rfl
  | step hs _ => simp [Step, supertypes, info?_empty] at hs

theorem eq_of_shape {t r : TypeExpr} (h : ({} : Universe).Shape t r) : r = t := by
  obtain ⟨s, hs, hr⟩ := shape_iff.1 h
  simp only [unwrap?, info?_empty] at hs
  rw [eq_of_reaches hr]
  simpa using hs

theorem finitary_empty : ({} : Universe).Finitary :=
  finitary_of_hasVars (by decide +kernel)

theorem ground_empty : ({} : Universe).Ground := fun t a ha => by
  rw [autoConstructor?_eq_none (by decide +kernel) t] at ha
  cases ha

end Universe

namespace Resolver

variable {r : Resolver} {drafts : List Draft} {n k D round : Nat} {goal : Option Claim}
  {s : State} {c : Claim} {draft : Draft} {c₀ : Catalog} {rank : String → Nat → Fin (k + 1)}

/-- What is declared on the fly claims what a template claims, the type inside of an optional one,
or what a constructor claims. -/
theorem Supplies.claims_cases {id : Nat} {x : Claim} (hd : Supplies r s c draft)
    (hx : x ∈ (draft.declare id).claims) :
    (∃ t ∈ s.catalog.templates, ∃ n σ, r.types.unify? n t.type c.type = some (some σ) ∧
      ∃ y ∈ t.claims, x.type = y.type.substitute σ ∧ x.tags = y.tags) ∨
    (x.type ∈ c.type.parts ∧ x.tags = c.tags) ∨
    ∃ t a, r.types.autoConstructor? t = some a ∧ x ∈ a.claims := by
  cases hd with
  | @specialized t σ n ht hacc hu =>
    rw [Draft.declare_of_typeParams rfl] at hx
    obtain ⟨y, hy, rfl⟩ := List.mem_map.1 hx
    exact .inl ⟨t, ht, n, σ, hu, y, hy, rfl, rfl⟩
  | @wrapper inner h =>
    rw [Draft.declare_of_typeParams rfl] at hx
    rw [List.mem_singleton.1 hx]
    obtain ⟨n, e, -⟩ := Universe.inners_eq h
    refine .inr (.inl ⟨?_, rfl⟩)
    rw [e]
    exact mem_parts_named.2 (.inr ⟨inner, List.mem_singleton_self _, self_mem_parts inner⟩)
  | @final a h hacc =>
    rw [Draft.declare_of_typeParams rfl] at hx
    exact .inr (.inr ⟨_, a, h, hx⟩)

/-- **What is declared on the fly claims nothing larger**, by the ranks of its arguments, if the
templates are ranked. -/
theorem Supplies.ranked (hd : Supplies r s c draft)
    (ht : ∀ t ∈ s.catalog.templates, t.RankedBy r.types rank ∧ ∀ x ∈ t.claims, x.type.size ≤ D)
    (ha : ∀ t a, r.types.autoConstructor? t = some a → ∀ x ∈ a.claims, x.type.size ≤ D)
    (hc : Ranked rank D c.type) (id : Nat) :
    ∀ x ∈ (draft.declare id).claims, Ranked rank D x.type := by
  intro x hx
  rcases hd.claims_cases hx with ⟨t, htm, n, σ, hu, y, hy, e, -⟩ | ⟨hpart, -⟩ | ⟨t, a, h, hx⟩
  · rw [e]
    exact (ht t htm).1.ranked (ht t htm).2 hu hc y hy
  · exact hc.of_mem_parts hpart
  · exact ranked_of_size (ha t a h x hx)

/-- What is declared on the fly claims types that are larger by a factor. -/
theorem Supplies.size_le (hd : Supplies r s c draft) (hD : 0 < D)
    (ht : ∀ t ∈ s.catalog.templates, ∀ x ∈ t.claims, x.type.size ≤ D)
    (ha : ∀ t a, r.types.autoConstructor? t = some a → ∀ x ∈ a.claims, x.type.size ≤ D)
    (id : Nat) : ∀ x ∈ (draft.declare id).claims, x.type.size ≤ D * c.type.size := by
  intro x hx
  have hpos : 0 < c.type.size := c.type.size_pos
  rcases hd.claims_cases hx with ⟨t, htm, n, σ, hu, y, hy, e, -⟩ | ⟨hpart, -⟩ | ⟨t, a, h, hx⟩
  · obtain ⟨q, -, hσ⟩ := exists_specializes hu
    rw [e]
    calc (y.type.substitute σ).size ≤ y.type.size * c.type.size :=
          size_substitute_le hpos fun z _ v hv =>
            size_le_of_mem_parts (mem_parts_of_matchWith hσ.match_ hv)
      _ ≤ D * c.type.size := Nat.mul_le_mul_right _ (ht t htm y hy)
  · exact (size_le_of_mem_parts hpart).trans (Nat.le_mul_of_pos_left _ hD)
  · exact (ha t a h x hx).trans (Nat.le_mul_of_pos_right _ hpos)

/-- The tags of what is claimed are those that the drafts and constructors state. -/
theorem Supplies.tags {T : List Tags} (hd : Supplies r s c draft)
    (ht : ∀ t ∈ s.catalog.templates, ∀ x ∈ t.claims, x.tags ∈ T)
    (ha : ∀ t a, r.types.autoConstructor? t = some a → ∀ x ∈ a.claims, x.tags ∈ T)
    (hc : c.tags ∈ T) (id : Nat) : ∀ x ∈ (draft.declare id).claims, x.tags ∈ T := by
  intro x hx
  rcases hd.claims_cases hx with ⟨t, htm, n, σ, hu, y, hy, -, e⟩ | ⟨-, e⟩ | ⟨t, a, h, hx⟩
  · exact e ▸ ht t htm y hy
  · exact e ▸ hc
  · exact ha t a h x hx

/-! ## Claims of a bounded size -/

/-- In no state that is reached a larger type is claimed. -/
def ClaimsUpTo (r : Resolver) (drafts : List Draft) (round k : Nat) : Prop :=
  ∀ goal s, Reachable r drafts round goal s → s.Pending fun c => c.type.size ≤ k

/-- Claims of a bounded size over finitely many names, with finitely many tags, are finitely
many. -/
theorem finite_claims (N : List String) (T : List Tags) (k : Nat) :
    {c : Claim | c.type.Within (· ∈ N) ∧ c.type.size ≤ k ∧ c.tags ∈ T}.Finite := by
  let kinds : List ClaimKind := ClaimKind.words.map Prod.fst
  have hkinds (kind : ClaimKind) : kind ∈ kinds := by cases kind <;> decide
  have hfin := ((finite_bounded N [] k).prod (T.finite_toSet.prod kinds.finite_toSet)).image
    fun e => ({ type := e.1, tags := e.2.1, kind := e.2.2 } : Claim)
  refine hfin.subset fun c hc => ?_
  obtain ⟨hover, hsize, htags⟩ := hc
  exact ⟨(c.type, c.tags, c.kind),
    ⟨⟨hover.mono (fun _ => id) (by simp), hsize⟩, htags, hkinds c.kind⟩, rfl⟩

/-- **If claims are bounded in size, then they are finitely many.** -/
theorem exists_encloses (hd : r.declareAll n ∅ drafts = .ok c₀) (hg : r.types.Ground)
    (hx : r.extensions = []) (hk : ∀ goal s, Way r round (none, .start c₀) (goal, s) →
      s.Pending fun c => c.type.size ≤ k) : ∃ K, Encloses r round c₀ K := by
  have hc : Declared r drafts c₀ := by simpa using declared_of_declareAll (declared_nil r) hd
  have hN := constructsWithin_mentioned hg drafts
  have hstart := within_start_of_declareAll hd
  have hwithin (s : State) (hm : Moves r (.start c₀) s) : s.Within (· ∈ r.mentioned drafts) :=
    hm.within hc hN hx hstart
  let T := (r.stated drafts).map (·.tags)
  have hstated (x : Claim) (h : x ∈ r.stated drafts) : x.tags ∈ T := List.mem_map_of_mem h
  have htags (s : State) (hm : Moves r (.start c₀) s) : s.Claims (·.tags ∈ T) := by
    refine hm.claims hc hN hx hstart (fun c hcT draft hd => hd.tags ?_ ?_ hcT)
      (State.claims_start fun d hd x hx => hstated x (hc.mem_stated_of_source hd hx))
    · exact fun t ht x hx => hstated x (hc.mem_stated_of_template ht hx)
    · exact fun t a ha x hx => hstated x (mem_stated_of_constructor ha hx)
  have hfin := finite_claims (r.mentioned drafts) T k
  have hmem {c : Claim} : c ∈ hfin.toFinset.toList ↔
      c.type.Within (· ∈ r.mentioned drafts) ∧ c.type.size ≤ k ∧ c.tags ∈ T := by simp
  refine ⟨hfin.toFinset.toList, hx, ⟨drafts, hc⟩, fun s hm c hcK draft hd => ?_, ?_⟩
  · exact ((hwithin s hm).supplies hN (hmem.1 hcK).1 hd).1
  · intro goal s hw f hf c hcp
    exact hmem.2 ⟨((hwithin s hw.moves).pending f hf).2 c hcp, hk goal s hw f hf c hcp,
      (htags s hw.moves).pending f hf c hcp⟩

/-- In a round of which the claims are bounded no way goes on forever. -/
theorem acc_of_claimsUpTo (hd : r.declareAll n ∅ drafts = .ok c₀)
    (hr : c₀.roots.isEmpty = false) (hg : r.types.Ground) (hx : r.extensions = [])
    (hk : r.ClaimsUpTo drafts round k) :
    Acc (fun q p => Onward r round p q) ((none, .start c₀) : Option Claim × State) := by
  obtain ⟨K, hK⟩ := exists_encloses hd hg hx fun goal s hw =>
    hk goal s (reachable_iff.2 ⟨n, c₀, hd, hr, hw⟩)
  exact hK.acc .refl

/-- **If claims are bounded in size, then finitely many states are reached.** -/
theorem finite_reachable (hg : r.types.Ground) (hx : r.extensions = [])
    (hk : r.ClaimsUpTo drafts round k) :
    {p : Option Claim × State | Reachable r drafts round p.1 p.2}.Finite := by
  by_cases h : ∃ n c₀, r.declareAll n ∅ drafts = .ok c₀ ∧ c₀.roots.isEmpty = false
  · obtain ⟨n, c₀, hd, hr⟩ := h
    refine (finite_of_acc (acc_of_claimsUpTo hd hr hg hx hk)).subset fun p hp => ?_
    obtain ⟨m, c, hc, -, hw⟩ := reachable_iff.1 hp
    obtain rfl := ok_unique approximates_declareAll hd hc
    exact hw
  · refine Set.finite_empty.subset fun p hp => h ?_
    obtain ⟨n, c₀, hd, hr, -⟩ := reachable_iff.1 hp
    exact ⟨n, c₀, hd, hr⟩

/-- What is measured in finitely many states is bounded. -/
theorem exists_bound (h : {p : Option Claim × State | Reachable r drafts round p.1 p.2}.Finite)
    (measure : State → Nat) : ∃ m, ∀ goal s, Reachable r drafts round goal s → measure s ≤ m := by
  obtain ⟨m, hm⟩ := (h.image fun p => measure p.2).bddAbove
  exact ⟨m, fun goal s hs => hm ⟨(goal, s), hs, rfl⟩⟩

theorem exists_claimsUpTo
    (h : {p : Option Claim × State | Reachable r drafts round p.1 p.2}.Finite) :
    ∃ k, r.ClaimsUpTo drafts round k := by
  have hframes (s : State) : {f | Frame.component f ∈ s.stack}.Finite :=
    s.stack.finite_toSet.preimage fun _ _ _ _ => Frame.component.inj
  have hclaims : (⋃ p ∈ {p : Option Claim × State | Reachable r drafts round p.1 p.2},
      ⋃ f ∈ {f | Frame.component f ∈ p.2.stack}, {c | c ∈ f.pending}).Finite :=
    h.biUnion fun p _ => (hframes p.2).biUnion fun f _ => f.pending.finite_toSet
  obtain ⟨k, hk⟩ := (hclaims.image (·.type.size)).bddAbove
  exact ⟨k, fun goal s hs f hf c hc =>
    hk ⟨c, Set.mem_biUnion (x := (goal, s)) hs (Set.mem_biUnion hf hc), rfl⟩⟩

/-- If the run of a round ends, so does the round. -/
theorem exists_yields (hf : r.types.Finitary)
    (h : ∀ n c₀, r.declareAll n ∅ drafts = .ok c₀ → c₀.roots.isEmpty = false →
      ∃ x, Ends r round none (.start c₀) x) : ∃ y, Yields r drafts round y := by
  obtain ⟨n, hn⟩ : Halts fun n => r.declareAll n ∅ drafts := halts_declareAll hf ∅
  by_cases hy : r.resolve n drafts round = .error .outOfFuel
  · rcases bind_eq_error.1 hy with hd | ⟨c₀, hd, hy⟩
    · exact absurd hd hn
    · cases hr : c₀.roots.isEmpty with
      | true =>
        simp only [hr] at hy
        cases hy
      | false =>
        obtain ⟨x, hx⟩ := h n c₀ hd hr
        exact ⟨x.map (resolution round), (yields_iff_of_start hd hr).2 ⟨x, hx, rfl⟩⟩
  · exact ⟨_, hy, n, rfl⟩

/-- Without extensions a round that ends comes to a plan or an error. -/
theorem Yields.resolved_or_failure {y : Except Interrupt Resolution} (h : Yields r drafts round y)
    (hx : r.extensions = []) : (∃ p, y = .ok (.resolved p)) ∨ ∃ e, y = .error (.failure e) := by
  obtain ⟨hy, n, hn⟩ := h
  cases y with
  | error i =>
    cases i with
    | failure e => exact .inr ⟨e, rfl⟩
    | outOfFuel => exact absurd rfl hy
  | ok y =>
    cases y with
    | resolved p => exact .inl ⟨p, rfl⟩
    | restart q =>
      obtain ⟨e, he, -⟩ := asked_of_resolve hn
      rw [hx] at he
      cases he

/-! ## What bounds the claims -/

/-- The drafts and constructors state no larger type. -/
def statedSize (r : Resolver) (drafts : List Draft) : Nat :=
  ((r.stated drafts).map (·.type.size)).sum + 1

theorem statedSize_pos : 0 < r.statedSize drafts := Nat.succ_pos _

theorem size_le_statedSize (h : c ∈ r.stated drafts) : c.type.size ≤ r.statedSize drafts :=
  (List.le_sum_of_mem (List.mem_map_of_mem (f := (·.type.size)) h)).trans (Nat.le_succ _)

/-- **A bound of the sources bounds the claims**, since what a source claims is larger only by a
factor than what it was declared for. -/
theorem exists_claimsUpTo_of_sources (hg : r.types.Ground) (hx : r.extensions = [])
    (h : ∃ m, ∀ goal s, Reachable r drafts round goal s → s.catalog.sources.length ≤ m) :
    ∃ k, r.ClaimsUpTo drafts round k := by
  obtain ⟨m, hm⟩ := h
  let D := r.statedSize drafts
  have hpos : 0 < D := statedSize_pos
  refine ⟨D ^ (m + 1), fun goal s hs f hf c hcp => ?_⟩
  obtain ⟨n, c₀, hd, hms⟩ := hs.exists_start
  have hc : Declared r drafts c₀ := by simpa using declared_of_declareAll (declared_nil r) hd
  have hclaims : s.Claims fun c => c.type.size ≤ D ^ (s.catalog.sources.length + 1) := by
    refine hms.graded_claims (P := fun i c => c.type.size ≤ D ^ (i + 1)) hc
      (constructsWithin_mentioned hg drafts) hx (within_start_of_declareAll hd)
      (fun i j c hij hi => hi.trans (Nat.pow_le_pow_right hpos (Nat.succ_le_succ hij)))
      (fun i c hi draft hs id x hx => ?_) (State.claims_start fun d hd x hx => ?_)
    · calc x.type.size ≤ D * c.type.size :=
            hs.size_le hpos
              (fun t ht x hx => size_le_statedSize (hc.mem_stated_of_template ht hx))
              (fun t a ha x hx => size_le_statedSize (mem_stated_of_constructor ha hx)) id x hx
        _ ≤ D * D ^ (i + 1) := Nat.mul_le_mul_left D hi
        _ = D ^ (i + 1 + 1) := (Nat.pow_succ').symm
    · exact (size_le_statedSize (hc.mem_stated_of_source hd hx)).trans
        (Nat.le_self_pow (Nat.succ_ne_zero _) D)
  have hle : s.catalog.sources.length ≤ m := hm goal s hs
  exact (hclaims.pending f hf c hcp).trans (Nat.pow_le_pow_right hpos (Nat.succ_le_succ hle))

/-- **Nonexpansive templates bound the claims.** -/
theorem Nonexpansive.exists_claimsUpTo (h : r.Nonexpansive drafts) (hg : r.types.Ground)
    (hx : r.extensions = []) : ∃ k, r.ClaimsUpTo drafts round k := by
  obtain ⟨k, rank, hrank⟩ := h
  let D := r.statedSize drafts
  refine ⟨D * D ^ (k + 1) + 1, fun goal s hs f hf c hcp => ?_⟩
  obtain ⟨n, c₀, hd, hm⟩ := hs.exists_start
  have hc : Declared r drafts c₀ := by simpa using declared_of_declareAll (declared_nil r) hd
  have hclaims : s.Claims fun c => Ranked rank D c.type := by
    refine hm.claims hc (constructsWithin_mentioned hg drafts) hx (within_start_of_declareAll hd)
      (fun c hc' draft hs => hs.ranked (fun t ht => ⟨?_, fun x hx => ?_⟩) ?_ hc')
      (State.claims_start fun d hd x hx =>
        ranked_of_size (size_le_statedSize (hc.mem_stated_of_source hd hx)))
    · have ht : t ∈ c₀.templates := ht
      rw [hc.templates] at ht
      obtain ⟨ht, htemplate⟩ := List.mem_filter.1 ht
      obtain ⟨i, d, hd, rfl⟩ := Draft.mem_declareEach.1 ht
      exact hrank d (List.mem_of_getElem? hd) ((d.isTemplate_declare i).symm.trans htemplate)
    · exact size_le_statedSize (hc.mem_stated_of_template ht hx)
    · exact fun t a ha x hx => size_le_statedSize (mem_stated_of_constructor ha hx)
  exact (hclaims.pending f hf c hcp).size_le statedSize_pos

/-- **Templates are specialized forever exactly if larger and larger types are claimed.** Claims are
bounded in size exactly if finitely many states are reached, and exactly if the number of sources is
bounded. Then the stack is bounded as well, and the round ends with a plan or an error. Templates
that hand no argument on, inside of another type, to where it came from bound the claims. -/
theorem specialization_ends_unless_claims_grow (r : Resolver) (drafts : List Draft) (round : Nat)
    (hf : r.types.Finitary) (hg : r.types.Ground) (hx : r.extensions = []) :
    ((∃ k, r.ClaimsUpTo drafts round k) ↔
      {p : Option Claim × State | Reachable r drafts round p.1 p.2}.Finite) ∧
    ((∃ k, r.ClaimsUpTo drafts round k) ↔
      ∃ m, ∀ goal s, Reachable r drafts round goal s → s.catalog.sources.length ≤ m) ∧
    ((∃ k, r.ClaimsUpTo drafts round k) →
      (∃ m, ∀ goal s, Reachable r drafts round goal s → s.stack.length ≤ m) ∧
      ∃ y, Yields r drafts round y ∧
        ((∃ p, y = .ok (.resolved p)) ∨ ∃ e, y = .error (.failure e))) ∧
    (r.Nonexpansive drafts → ∃ k, r.ClaimsUpTo drafts round k) := by
  have hfinite : (∃ k, r.ClaimsUpTo drafts round k) →
      {p : Option Claim × State | Reachable r drafts round p.1 p.2}.Finite :=
    fun ⟨_, hk⟩ => finite_reachable hg hx hk
  refine ⟨⟨hfinite, exists_claimsUpTo⟩,
    ⟨fun hk => exists_bound (hfinite hk) (·.catalog.sources.length),
      exists_claimsUpTo_of_sources hg hx⟩,
    fun hk => ⟨exists_bound (hfinite hk) (·.stack.length), ?_⟩, fun h => h.exists_claimsUpTo hg hx⟩
  obtain ⟨k, hk⟩ := hk
  obtain ⟨y, hy⟩ : ∃ y, Yields r drafts round y := exists_yields hf fun n c₀ hd hr =>
    (exists_ends_of_acc hf hx (acc_of_claimsUpTo hd hr hg hx hk)).imp fun _ h => h.1
  exact ⟨y, hy, hy.resolved_or_failure hx⟩

/-- An application needs a box of lists. There is a codec of whole numbers, a codec of lists of
anything needs a codec of it, and a box of anything needs a codec of lists of it. -/
def codecDrafts : List Draft :=
  [{ name := "app", type := .named "App" [], isRoot := true,
     claims := [{ type := .named "Box" [.named "List" [.named "Int" []]] }] },
   { name := "number", type := .named "Codec" [.named "Int" []] },
   { name := "list", type := .named "Codec" [.named "List" [.named "T" []]], typeParams := ["T"],
     claims := [{ type := .named "Codec" [.named "T" []] }] },
   { name := "box", type := .named "Box" [.named "T" []], typeParams := ["T"],
     claims := [{ type := .named "Codec" [.named "List" [.named "T" []]] }] }]

/-- What boxes are of is put into lists, and what lists are of is handed on as it is. -/
def codecRank (name : String) (_ : Nat) : Fin 2 := if name = "Box" then 0 else 1

theorem nonexpansive_codecs : ({} : Resolver).Nonexpansive codecDrafts := by
  have hranked : ∀ d ∈ codecDrafts, d.isTemplate = true → ∀ c ∈ (d.declare 0).claims,
      ∀ q ∈ c.type.parts, ∀ a ∈ q.args.zipIdx, ∀ x ∈ a.1.varOccurrences,
      ∃ p ∈ (d.declare 0).type.parts, ∃ b ∈ p.args.zipIdx, b.1 = .var x ∧
        if a.1 = .var x then codecRank p.name b.2 ≤ codecRank q.name a.2
        else codecRank p.name b.2 < codecRank q.name a.2 := by decide +kernel
  refine ⟨1, codecRank, fun d hd ht r hr _ => ?_⟩
  rw [eq_of_shape hr]
  exact hranked d hd ht

theorem specialization_ends_for_codecs : ({} : Resolver).types.Finitary ∧
    ({} : Resolver).types.Ground ∧ ({} : Resolver).extensions = [] ∧
    ({} : Resolver).Nonexpansive codecDrafts ∧
    (∃ k, ({} : Resolver).ClaimsUpTo codecDrafts 0 k) ∧
    {p : Option Claim × State | Reachable {} codecDrafts 0 p.1 p.2}.Finite ∧
    (∃ m, ∀ goal s, Reachable {} codecDrafts 0 goal s → s.catalog.sources.length ≤ m) ∧
    (∃ m, ∀ goal s, Reachable {} codecDrafts 0 goal s → s.stack.length ≤ m) ∧
    ∃ y, Yields {} codecDrafts 0 y ∧
      ((∃ p, y = .ok (.resolved p)) ∨ ∃ e, y = .error (.failure e)) := by
  obtain ⟨hfinite, hsources, hends, hclaims⟩ := specialization_ends_unless_claims_grow {}
    codecDrafts 0 finitary_empty ground_empty rfl
  have hk := hclaims nonexpansive_codecs
  exact ⟨finitary_empty, ground_empty, rfl, nonexpansive_codecs, hk, hfinite.1 hk, hsources.1 hk,
    hends hk⟩

/-! ## A template that is specialized forever -/

variable {q d : Source}

/-- If nothing that exists satisfies the claim, and one template can be specialized for it, then
this is built. -/
theorem decide_of_specialization {catalog : Catalog} (hr : s.resolvedMatches c = [])
    (hd : s.declaredMatches c = [])
    (hs : c.specializations? r.types n s.catalog.templates = some [draft])
    (hx : s.catalog.registerSource? r.types n draft = some (d, catalog)) :
    r.decide n round s q c = .ok (.build d catalog) := by
  have hbuild : r.fromTemplates n s c = .ok (some (.build d catalog)) := by
    simp only [fromTemplates, hs, budgeted, buildNew]
    simp only [Bind.bind, Except.bind, hx]
    rfl
  exact decide_of_templates (fromDeclarations_eq_none hr hd) hbuild

/-- A box, and nothing is known of it. -/
def boxOf (t : TypeExpr) : TypeExpr := .named "Box" [t]

/-- A box of lists of lists, to the given depth. -/
def boxClaim (k : Nat) : Claim := { type := boxOf (lists k) }

/-- An application needs a box of whole numbers. A box of anything needs a box of lists of it. -/
def boxDrafts : List Draft :=
  [{ name := "app", type := .named "App" [], isRoot := true,
     claims := [boxClaim 0] },
   { name := "box", type := boxOf (.named "T" []), typeParams := ["T"],
     claims := [{ type := boxOf (.named "List" [.named "T" []]) }] }]

theorem validate_boxes : ∀ d ∈ boxDrafts, d.validate = .ok () := by
  simp only [boxDrafts, List.forall_mem_cons]
  exact ⟨rfl, rfl, List.forall_mem_nil _⟩

/-- The only template. -/
def boxTemplate : Declaration where
  name := "box"
  type := boxOf (.var "T")
  typeParams := ["T"]
  claims := [{ type := boxOf (.named "List" [.var "T"]) }]
  id := 1

/-- What the variable of the template is replaced by. -/
def boxContent (k : Nat) : Substitution := NameMap.insert ∅ "T" (lists k)

theorem unify?_box (n k : Nat) : ({} : Universe).unify? (n + 1) boxTemplate.type (boxClaim k).type =
    some (some (boxContent k)) := by
  have hm : boxTemplate.type.matchWith (boxClaim k).type ∅ = some (boxContent k) := rfl
  have hv : (boxTemplate.type.vars.all fun x => (boxContent k).contains x) = true := rfl
  have ha : ({} : Universe).assignable? (n + 1) (boxTemplate.type.substitute (boxContent k))
      (boxClaim k).type = some true := by
    have e : boxTemplate.type.substitute (boxContent k) = (boxClaim k).type := rfl
    simp [assignable?, firstUpward?, firstUpwardFrom?, e]
  have ht : unify?.test {} (n + 1) boxTemplate.type (boxClaim k).type boxTemplate.type =
      some (some (boxContent k)) := by
    unfold unify?.test
    simp only [hm]
    rw [if_pos hv]
    simp [ha]
  simp [unify?, firstUpward?, firstUpwardFrom?, ht]

theorem specializations?_box (n k : Nat) : (boxClaim k).specializations? {} (n + 1) [boxTemplate] =
    some [boxTemplate.instantiate (boxContent k)] := by
  have ha : (boxClaim k).tags.Accepts boxTemplate.tags := Tags.accepts_self ∅
  have hs := Declaration.specialize?_of_unify? ha (unify?_box n k)
  simp [Claim.specializations?, hs, Claim.narrow]

theorem isTemplate_instantiate_box (k : Nat) :
    (boxTemplate.instantiate (boxContent k)).isTemplate = false := by
  have htype : (boxTemplate.instantiate (boxContent k)).type = boxOf (lists k) := rfl
  have hv : (boxOf (lists k)).hasVars = false := by
    simpa [boxOf, hasVars_named] using hasVars_lists k
  have hp : (boxTemplate.instantiate (boxContent k)).typeParams = [] := rfl
  simp [Draft.isTemplate, htype, hv, hp]

/-- A box is being built, and nothing but a larger box can satisfy its claim. -/
structure RunsAway (k : Nat) (s : State) : Prop where
  /-- A round comes to the state. -/
  reachable : Reachable {} boxDrafts 0 none s
  /-- Any box can be declared. -/
  templates : s.catalog.templates = [boxTemplate]
  /-- Nothing is complete. -/
  resolved : s.resolved = []
  /-- No box of this size or a larger one is declared, -/
  sources : ∀ d ∈ s.catalog.sources, ∀ j, k ≤ j → d.type ≠ boxOf (lists j)
  /-- and one is claimed. -/
  waiting : ∃ f below, s.stack = .component f :: below ∧ f.pending = [boxClaim k] ∧
    f.source.id ∉ Frame.ids below
  /-- There is a source for each smaller box, -/
  declared : s.catalog.sources.length = k + 1
  /-- and it is not complete. -/
  height : s.stack.length = k + 1

namespace RunsAway

theorem declaredMatches (h : RunsAway k s) : s.declaredMatches (boxClaim k) = [] := by
  refine List.eq_nil_iff_forall_not_mem.2 fun d hd => ?_
  obtain ⟨hm, -, hfit⟩ := State.mem_sources_of_mem_declaredMatches hd
  have hl : d.Listed {} := (Catalog.declares_of_mem h.reachable.identified.sound hm).1
  obtain ⟨-, hr | ⟨inner, hi, -⟩⟩ := hl.fits_iff.1 hfit
  · exact h.sources d hm k le_rfl (eq_of_reaches hr).symm
  · simp [unwrap?, info?_empty] at hi

theorem resolvedMatches (h : RunsAway k s) : s.resolvedMatches c = [] := by
  refine List.eq_nil_iff_forall_not_mem.2 fun m hm => ?_
  obtain ⟨x, hx, -⟩ := State.exists_of_mem_resolvedMatches hm
  simp [h.resolved] at hx

/-- The next box that is begun needs a larger one. -/
theorem start (h : RunsAway k s)
    (hr : s.catalog.registerSource? {} n (boxTemplate.instantiate (boxContent k)) =
      some (d, s.catalog.addSource d))
    (ht : Reachable {} boxDrafts 0 none
      { s with catalog := s.catalog.addSource d, stack := .component (.start d) :: s.stack }) :
    RunsAway (k + 1)
      { s with catalog := s.catalog.addSource d, stack := .component (.start d) :: s.stack } := by
  obtain ⟨-, -, -, hfresh⟩ := h.reachable.identified.register hr
  obtain ⟨-, e, ha⟩ := Catalog.added_of_registerSource? hr
  have e := e.trans (Draft.declare_of_typeParams rfl _)
  have hclaims : d.claims = [boxClaim (k + 1)] := by
    rw [e]
    rfl
  refine ⟨ht, h.templates, h.resolved, fun x hx j hj => ?_,
    ⟨.start d, s.stack, rfl, hclaims, hfresh⟩, ?_, congrArg (· + 1) h.height⟩
  · rcases List.mem_append.1 hx with hx | hx
    · exact h.sources x hx j (Nat.le_of_succ_le hj)
    · rw [List.mem_singleton.1 hx, e]
      intro he
      have hkj : k = j := lists_injective (List.cons.inj (named.inj he).2).1
      omega
  · exact (ha.length_sources (isTemplate_instantiate_box k)).trans (congrArg (· + 1) h.declared)

/-- The next box is begun. -/
theorem step (h : RunsAway k s) :
    ∃ n t, ({} : Resolver).step n 0 none s = .ok (.next t) ∧ RunsAway (k + 1) t := by
  obtain ⟨f, below, hs, hf, hid⟩ := h.waiting
  have hb := Frame.not_closesCycle hid
  obtain ⟨n, ⟨d, catalog⟩, hr⟩ :=
    finitary_empty.exists_registerSource? s.catalog (boxTemplate.instantiate (boxContent k))
  have hr := Catalog.registerSource?_mono (Nat.le_succ n) hr
  obtain rfl := Catalog.eq_addSource hr (isTemplate_instantiate_box k)
  have htemplate : (boxClaim k).specializations? {} (n + 1) s.catalog.templates =
      some [boxTemplate.instantiate (boxContent k)] := by
    rw [h.templates, specializations?_box]
  have hstep : ({} : Resolver).step (n + 1) 0 none s =
      .ok (.next ({ s with catalog := s.catalog.addSource d }.push d)) :=
    step_of_build hs hb hf rfl
      (decide_of_specialization h.resolvedMatches h.declaredMatches htemplate hr)
  have hsound : (s.catalog.addSource d).Sound {} := (h.reachable.identified.register hr).1.sound
  rw [push_eq (r := {}) (not_intercepts (by decide +kernel)) hsound] at hstep
  exact ⟨n + 1, _, hstep, h.start hr (h.reachable.next hstep)⟩

/-- The round comes to the first box. -/
theorem exists_zero : ∃ s, RunsAway 0 s := by
  obtain ⟨s, hs, h⟩ := exists_reachable {} 50 boxDrafts 0 1
    (fun s => s.catalog.templates == [boxTemplate] && s.resolved == [] &&
      s.catalog.sources.map (·.type.name) == ["App"] && s.stack.length == 1 && s.stack.all fun
        | .component f => f.pending == [boxClaim 0]
        | .root _ => false)
    (by decide +kernel)
  simp only [Bool.and_eq_true, beq_iff_eq] at h
  obtain ⟨⟨⟨⟨ht, hr⟩, hsources⟩, hlength⟩, hstack⟩ := h
  obtain ⟨frame, hframe⟩ := List.length_eq_one_iff.1 hlength
  rw [hframe, List.all_cons, List.all_nil, Bool.and_true] at hstack
  cases frame with
  | root _ => cases hstack
  | component f =>
    refine ⟨s, hs, ht, hr, fun d hd j _ he => ?_, ⟨f, [], hframe, beq_iff_eq.1 hstack, by simp⟩, ?_,
      hlength⟩
    · have hname : d.type.name ∈ ["App"] := hsources ▸ List.mem_map_of_mem hd
      rw [he] at hname
      simp [boxOf, name] at hname
    · simpa using congrArg List.length hsources

/-- The round comes to each box. -/
theorem exists_runsAway (k : Nat) : ∃ s, RunsAway k s := by
  induction k with
  | zero => exact exists_zero
  | succ k ih =>
    obtain ⟨s, hs⟩ := ih
    obtain ⟨n, t, -, ht⟩ := hs.step
    exact ⟨t, ht⟩

end RunsAway

/-- **No limit keeps a template from being specialized forever**: each box needs a larger one, so
the round never ends, and no number bounds what it declares and what it has to come back to. -/
theorem boxes_run_away :
    ({} : Resolver).types.Finitary ∧ ({} : Resolver).types.Ground ∧
    ({} : Resolver).extensions = [] ∧ (∀ d ∈ boxDrafts, d.validate = .ok ()) ∧
    (∀ n, ({} : Resolver).resolve n boxDrafts 0 = .error .outOfFuel) ∧
    ∀ m, ∃ s, Reachable {} boxDrafts 0 none s ∧
      m < s.catalog.sources.length ∧ m < s.stack.length := by
  refine ⟨finitary_empty, ground_empty, rfl, validate_boxes, fun n => ?_, fun m => ?_⟩
  · obtain ⟨s, hs⟩ := RunsAway.exists_runsAway 0
    by_contra hy
    obtain ⟨x, ⟨hx, m, hm⟩, -⟩ := hs.reachable.yields_iff.1 ⟨hy, n, rfl⟩
    refine hx (hm.symm.trans (outOfFuel_of_onward (I := fun s => ∃ k, RunsAway k s) ?_ ⟨0, hs⟩ m))
    rintro s ⟨k, hs⟩
    obtain ⟨n, t, hstep, ht⟩ := hs.step
    exact ⟨t, .step (.inl hstep), k + 1, ht⟩
  · obtain ⟨s, hs⟩ := RunsAway.exists_runsAway m
    refine ⟨s, hs.reachable, ?_, ?_⟩
    · rw [hs.declared]
      exact Nat.lt_succ_self m
    · rw [hs.height]
      exact Nat.lt_succ_self m

end Resolver

end Wiring
