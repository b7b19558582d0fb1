import Wiring.Proofs.Resolution.Ambiguity
import Wiring.Proofs.Resolution.Demand
/-!
# What a claim finds again

A claim on one instance for which a component is to be built is looked up again once that is
finished. By then other declarations may satisfy it, which were made on the fly, or finished, for
what the component needs.

* `Resolver.decide_eq_bind_iff`: the claim is bound to the component exactly if that prevails
  (`State.Prevails`).
* `Resolver.chosen_of_decide` and `State.Unrivalled.prevails`: the component that is to be built
  for a claim prevails once it is finished, unless a rival came up (`State.Rivals`): defaults are
  none if the component is no default, nor is what was declared only, unless the component is a
  default.
-/

namespace Wiring

namespace State

variable {u : Universe} {s t : State} {c : Claim} {d x : Source} {m : Match} {i : Nat} {fit : Fit}

/-! ## What is chosen -/

/-- The component of `d` is to be built for the claim. -/
structure Chosen (s : State) (c : Claim) (d : Source) : Prop where
  /-- Of all declarations that satisfy the claim, it stands out. -/
  standsOut : StandsOut c id (s.candidates c) d
  /-- Those that are finished are defaults. -/
  finished : ∀ x ∈ s.candidates c, s.isResolved x.id = true → x.isDefault = true
  /-- It is not finished itself. -/
  unresolved : s.isResolved d.id = false

/-- Since the state `s`, `x` came up as another declaration that satisfies the claim as well as `d`:
it was finished or, if `d` is a default, declared. -/
structure Rivals (s t : State) (c : Claim) (d x : Source) : Prop where
  /-- It satisfies the claim. -/
  mem : x ∈ t.candidates c
  /-- It is another one. -/
  ne : x ≠ d
  /-- It is a default only if `d` is one. -/
  default : x.isDefault = true → d.isDefault = true
  /-- It came up since. -/
  new : t.isResolved x.id = true ∧ s.isResolved x.id = false ∨
    d.isDefault = true ∧ x ∉ s.catalog.sources

/-- The finished component of `d` wins over all others that satisfy the claim. -/
structure Prevails (s : State) (c : Claim) (d : Source) : Prop where
  /-- It stands out among those that are finished. -/
  finished : ∃ m, m.source = d ∧ StandsOut c Match.source (s.resolvedMatches c) m
  /-- A default also stands out among all declarations, if one that is no default is still to be
  built. -/
  declared : d.isDefault = true →
    (∃ x ∈ s.candidates c, x.isDefault = false ∧ s.isResolved x.id = false) →
    StandsOut c id (s.candidates c) d

theorem isSome_awaited_iff (h : s.catalog.Sound u) : (s.awaited c).isSome = true ↔
    ∃ x ∈ s.candidates c, x.isDefault = false ∧ s.isResolved x.id = false := by
  rw [awaited, declaredMatches_eq h, List.find?_isSome]
  simp

/-- What is finished and a source in the end was a source when it was finished. -/
theorem mem_sources_of_grows (hg : s.Grows t) (hi : s.Identified u) (hit : t.Identified u)
    (hx : x ∈ t.catalog.sources) (hr : s.isResolved x.id = true) : x ∈ s.catalog.sources := by
  obtain ⟨n, hn, e⟩ := isResolved_iff.1 hr
  have hd : s.catalog.Declares u x := by
    obtain rfl : n.source = x := hit.source_eq (hg.resolved.mem hn)
      (Catalog.declares_of_mem hit.sound hx) e
    exact hi.declared n hn
  rcases List.mem_append.1 hd.2 with hs | ht
  · obtain ⟨y, hy, e⟩ := List.mem_map.1 hs
    rwa [← (hi.sound.listed y hy).ext hd.1 e]
  · -- It would be a template and a source at once.
    have hdist := hit.sound.distinct
    rw [Catalog.declarations, List.map_append, List.nodup_append] at hdist
    refine absurd rfl (hdist.2.2 x.id ?_ x.id ?_)
    · exact List.mem_map_of_mem (List.mem_map_of_mem hx)
    · exact List.mem_map_of_mem (hg.catalog.templates.mem ht)

/-- At the position of a declaration there is its component. -/
theorem exists_node_of_position? (hi : s.Identified u) (hd : s.catalog.Declares u d)
    (hp : s.position? d.id = some i) : ∃ n, s.resolved[i]? = some n ∧ n.source = d := by
  obtain ⟨n, hn, e⟩ := exists_of_position? hp
  exact ⟨n, hn, hi.source_eq (List.mem_of_getElem? hn) hd e⟩

/-- A finished component that satisfies the claim is found, and it is the only match of its
declaration. -/
theorem mem_resolvedMatches_iff (hx : s.Indexed) (hi : s.Identified u) (hd : d ∈ s.candidates c)
    (hp : s.position? d.id = some i) (hf : d.fit? c = some fit) :
    m ∈ s.resolvedMatches c ∧ m.source = d ↔ m = ⟨i, d, fit⟩ := by
  have hown : ⟨i, d, fit⟩ ∈ s.resolvedMatches c := by
    obtain ⟨hs, hnp, -⟩ := mem_candidates.1 hd
    obtain ⟨n, hn, rfl⟩ :=
      exists_node_of_position? hi (Catalog.declares_of_mem hi.sound hs) hp
    exact (mem_resolvedMatches hx hi).2 ⟨⟨n.edges, hn⟩, hs, hnp, hf⟩
  constructor
  · rintro ⟨hm, e⟩
    exact source_injOn_resolvedMatches hx hi hm hown e
  · rintro rfl
    exact ⟨hown, rfl⟩

theorem Chosen.push (h : s.Chosen c d) (x : Source) : (s.push x).Chosen c d :=
  ⟨h.standsOut, h.finished, h.unresolved⟩

/-! ## What stands out -/

/-- If a declaration stands out that is not finished, and among those that are finished a default
does, then these are all defaults. -/
theorem isDefault_of_standsOut (hx : s.Indexed) (hi : s.Identified u)
    (hd : StandsOut c id (s.candidates c) d) (hu : s.isResolved d.id = false)
    (hm : StandsOut c Match.source (s.resolvedMatches c) m) (hdef : m.source.isDefault = true)
    {m' : Match} (hm' : m' ∈ s.resolvedMatches c) : m'.source.isDefault = true := by
  -- No finished component is one of the declaration that stands out.
  have hne {m : Match} (hm : m ∈ s.resolvedMatches c) :
      m.source ∈ s.candidates c ∧ m.source ≠ d := by
    obtain ⟨hc, hr⟩ := (mem_map_resolvedMatches hx hi).1 (List.mem_map_of_mem hm)
    refine ⟨hc, ?_⟩
    rintro rfl
    simp [hu] at hr
  cases hm with
  | only hone =>
    rw [hone] at hm'
    rwa [List.mem_singleton.1 hm']
  | nonDefault hone =>
    have hnd := ((of_filter_eq_singleton hone).2 rfl).2
    simp [hdef] at hnd
  | exact hn hone =>
    obtain ⟨hmem, hexact⟩ := (of_filter_eq_singleton hone).2 rfl
    obtain ⟨hc, hcd⟩ := hne hm'
    refine eq_true_of_ne_false fun hnd => ?_
    cases hd with
    | only h =>
      rw [h] at hc
      exact hcd (List.mem_singleton.1 hc)
    | nonDefault h => exact hcd ((of_filter_eq_singleton h).1 ⟨hc, by simp [hnd]⟩)
    | exact hn h =>
      exact (hne hmem).2 ((of_filter_eq_singleton h).1 ⟨(hne hmem).1, hexact⟩)

/-- If none of the declarations that satisfy a claim is finished, then nothing that is finished
satisfies it. -/
theorem resolvedMatches_eq_nil_of_isResolved (hx : s.Indexed) (hi : s.Identified u)
    (hn : ∀ d ∈ s.declaredMatches c, s.isResolved d.id = false) : s.resolvedMatches c = [] := by
  rw [declaredMatches_eq hi.sound] at hn
  refine List.eq_nil_iff_forall_not_mem.2 fun m hm => ?_
  obtain ⟨hc, hr⟩ := (mem_map_resolvedMatches hx hi).1 (List.mem_map_of_mem hm)
  rw [hn _ hc] at hr
  cases hr

/-- If nothing that is declared satisfies a claim, then nothing that is finished does. -/
theorem resolvedMatches_eq_nil (hx : s.Indexed) (hi : s.Identified u)
    (hn : s.declaredMatches c = []) : s.resolvedMatches c = [] :=
  resolvedMatches_eq_nil_of_isResolved hx hi fun _ hd => absurd (hn ▸ hd) List.not_mem_nil

/-- If no finished component is found, then there is none, or a default stands out and gives way. -/
theorem standsOut_of_findResolved (h : s.findResolved c = .absent) :
    s.resolvedMatches c = [] ∨
      ∃ m, StandsOut c Match.source (s.resolvedMatches c) m ∧ m.source.isDefault = true ∧
        (s.awaited c).isSome = true := by
  unfold findResolved at h
  split at h
  · next m hp =>
    split at h
    · next hgive => exact .inr ⟨m, pick_eq_one_iff.1 hp, Bool.and_eq_true_iff.1 hgive⟩
    · cases h
  · exact .inl (pick_eq_absent h)

/-- If the declaration that stands out is finished, but no finished component is found, then that of
the declaration stands out, and gives way. -/
theorem standsOut_of_absent (hx : s.Indexed) (hi : s.Identified u)
    (hd : StandsOut c id (s.candidates c) m.source) (hr : s.findResolved c = .absent)
    (hm : m ∈ s.resolvedMatches c) : StandsOut c Match.source (s.resolvedMatches c) m := by
  rcases standsOut_of_findResolved hr with hnil | ⟨m', hso, hdef, ha⟩
  · rw [hnil] at hm
    cases hm
  · have hfin {m : Match} (hm : m ∈ s.resolvedMatches c) :=
      (mem_map_resolvedMatches hx hi).1 (List.mem_map_of_mem (f := Match.source) hm)
    -- It is the declaration that stands out.
    have hsource : m'.source = m.source := by
      cases hd with
      | only hone =>
        have := (hfin hso.mem).1
        rwa [hone, List.mem_singleton] at this
      | nonDefault hone =>
        -- Then nothing is awaited.
        obtain ⟨x, hx, hnd, hu⟩ := (isSome_awaited_iff hi.sound).1 ha
        rw [(of_filter_eq_singleton hone).1 ⟨hx, by simp [hnd]⟩, (hfin hm).2] at hu
        cases hu
      | exact hn hone =>
        cases hso with
        | only h =>
          rw [h, List.mem_singleton] at hm
          rw [hm]
        | nonDefault h =>
          have hnd := ((of_filter_eq_singleton h).2 rfl).2
          simp [hdef] at hnd
        | exact hn' h =>
          obtain ⟨hmem, hexact⟩ := (of_filter_eq_singleton h).2 rfl
          exact (of_filter_eq_singleton hone).1 ⟨(hfin hmem).1, hexact⟩
    rwa [source_injOn_resolvedMatches hx hi hso.mem hm hsource] at hso

/-! ## What is chosen is found again -/

/-- The state has grown from `s` to `t`, and no rival came up to what was chosen. -/
structure Unrivalled (u : Universe) (s t : State) (c : Claim) (d : Source) : Prop where
  /-- It was chosen. -/
  chosen : s.Chosen c d
  /-- The state has grown. -/
  grows : s.Grows t
  /-- Identities told components apart. -/
  before : s.Identified u
  /-- They still do. -/
  after : t.Identified u
  /-- The index is that of the finished components. -/
  indexed : t.Indexed
  /-- There is no rival. -/
  alone : ∀ x, ¬ s.Rivals t c d x

namespace Unrivalled

/-- All that is finished and satisfies the claim are defaults, but for what was chosen. -/
theorem isDefault_of_mem (h : Unrivalled u s t c d) (hm : m ∈ t.resolvedMatches c)
    (hne : m.source ≠ d) : m.source.isDefault = true := by
  obtain ⟨hmt, hres⟩ := (mem_map_resolvedMatches h.indexed h.after).1 (List.mem_map_of_mem hm)
  refine eq_true_of_ne_false fun hdef => ?_
  -- It was finished before, since it is no rival.
  have hold : s.isResolved m.source.id = true := by
    refine eq_true_of_ne_false fun hnew => h.alone m.source ?_
    exact ⟨hmt, hne, by simp [hdef], .inl ⟨hres, hnew⟩⟩
  obtain ⟨hs, hp, hf⟩ := mem_candidates.1 hmt
  have hms : m.source ∈ s.candidates c :=
    mem_candidates.2 ⟨mem_sources_of_grows h.grows h.before h.after hs hold, hp, hf⟩
  simp [h.chosen.finished _ hms hold] at hdef

/-- No declaration came up that competes with a default. -/
theorem candidates_eq (h : Unrivalled u s t c d) (hdef : d.isDefault = true) :
    t.candidates c = s.candidates c := by
  obtain ⟨l, hl⟩ := h.grows.catalog.sources
  have hnil : l.filter (fun x => !x.isProxy && Decidable.decide (x.Fits c)) = [] := by
    refine List.filter_eq_nil_iff.2 fun x hx hfit => h.alone x ?_
    have hmem : x ∈ t.candidates c := by
      rw [candidates, ← hl, List.filter_append]
      exact List.mem_append_right _ (List.mem_filter.2 ⟨hx, hfit⟩)
    -- It was declared since.
    have hnew : x ∉ s.catalog.sources := fun hs => by
      have hdist := nodup_sources h.after.sound
      rw [← hl] at hdist
      exact (List.nodup_append.1 hdist).2.2 x hs x hx rfl
    refine ⟨hmem, ?_, fun _ => hdef, .inr ⟨hdef, hnew⟩⟩
    rintro rfl
    exact hnew (mem_candidates.1 h.chosen.standsOut.mem).1
  rw [candidates, candidates, ← hl, List.filter_append, hnil, List.append_nil]

/-- What was chosen still satisfies the claim. -/
theorem mem_candidates (h : Unrivalled u s t c d) : d ∈ t.candidates c := by
  obtain ⟨hs, hp, hf⟩ := State.mem_candidates.1 h.chosen.standsOut.mem
  exact State.mem_candidates.2 ⟨h.grows.catalog.sources.mem hs, hp, hf⟩

/-- What was chosen stands out if it is no default: all others are. -/
theorem standsOut_of_nonDefault (h : Unrivalled u s t c d) (hp : t.position? d.id = some i)
    (hf : d.fit? c = some fit) (hdef : d.isDefault = false) :
    StandsOut c Match.source (t.resolvedMatches c) ⟨i, d, fit⟩ := by
  have hiff (m : Match) := mem_resolvedMatches_iff (m := m) h.indexed h.after h.mem_candidates hp hf
  have hnodup := nodup_resolvedMatches (c := c) h.indexed
  refine .nonDefault (filter_eq_singleton hnodup fun m => ⟨fun ⟨hm, hmd⟩ => ?_, ?_⟩)
  · refine (hiff m).1 ⟨hm, by_contra fun hne => ?_⟩
    simp [h.isDefault_of_mem hm hne] at hmd
  · rintro rfl
    exact ⟨((hiff _).2 rfl).1, by simp [hdef]⟩

/-- What was chosen stands out if it is a default, for the same reason as before. -/
theorem standsOut_of_default (h : Unrivalled u s t c d) (hp : t.position? d.id = some i)
    (hf : d.fit? c = some fit) (hdef : d.isDefault = true) :
    StandsOut c Match.source (t.resolvedMatches c) ⟨i, d, fit⟩ := by
  have hiff (m : Match) := mem_resolvedMatches_iff (m := m) h.indexed h.after h.mem_candidates hp hf
  have hnodup := nodup_resolvedMatches (c := c) h.indexed
  have hsource (m : Match) (hm : m ∈ t.resolvedMatches c) : m.source ∈ s.candidates c := by
    rw [← h.candidates_eq hdef]
    exact ((mem_map_resolvedMatches h.indexed h.after).1 (List.mem_map_of_mem hm)).1
  have hall (m : Match) (hm : m ∈ t.resolvedMatches c) : m.source.isDefault = true := by
    by_cases e : m.source = d
    · rw [e, hdef]
    · exact h.isDefault_of_mem hm e
  cases h.chosen.standsOut with
  | only hone =>
    refine .only ?_
    refine List.perm_singleton.1 ((List.perm_ext_iff_of_nodup hnodup (by simp)).2 fun m => ?_)
    rw [List.mem_singleton, ← hiff]
    refine ⟨fun hm => ⟨hm, ?_⟩, And.left⟩
    simpa [hone] using hsource m hm
  | nonDefault hone =>
    have hnd := ((of_filter_eq_singleton hone).2 rfl).2
    simp [hdef] at hnd
  | exact hne hone =>
    refine .exact ?_ (filter_eq_singleton hnodup fun m => ⟨fun ⟨hm, he⟩ => ?_, ?_⟩)
    · rw [List.filter_eq_nil_iff.2 fun m hm => by simp [hall m hm]]
      simp
    · exact (hiff m).1 ⟨hm, (of_filter_eq_singleton hone).1 ⟨hsource m hm, he⟩⟩
    · rintro rfl
      exact ⟨((hiff _).2 rfl).1, ((of_filter_eq_singleton hone).2 rfl).2⟩

/-- **Without a rival, what was chosen prevails** once it is finished. -/
theorem prevails (h : Unrivalled u s t c d) (hp : t.position? d.id = some i)
    (hf : d.fit? c = some fit) : t.Prevails c d where
  finished := by
    refine ⟨⟨i, d, fit⟩, rfl, ?_⟩
    cases hdef : d.isDefault with
    | false => exact h.standsOut_of_nonDefault hp hf hdef
    | true => exact h.standsOut_of_default hp hf hdef
  declared hdef _ := by
    rw [h.candidates_eq hdef]
    exact h.chosen.standsOut

end Unrivalled

end State

namespace Resolver

variable {r : Resolver} {s : State} {c : Claim} {d q : Source} {e : Edge} {fit : Fit}
  {catalog : Catalog} {i n round : Nat}

/-! ## Which component a claim is bound to -/

/-- A claim that has no declaration is not bound to a component. -/
theorem Answers.constructionTargets_eq_nil (h : Answers r s c e) (hx : s.Indexed)
    (hi : s.Identified r.types) (hn : s.declaredMatches c = []) : e.constructionTargets = [] := by
  have hnil : s.resolvedMatches c = [] := State.resolvedMatches_eq_nil hx hi hn
  cases h with
  | finished hk hm =>
    rw [hnil] at hm
    cases hm
  | declared hk hd =>
    rw [hn] at hd
    cases hd
  | absent | token => rfl
  | every => simp [Edge.constructionTargets, hnil]

/-- A claim is bound to the finished component that prevails. -/
theorem fromDeclarations_of_prevails (h : s.Prevails c d) (hi : s.Identified r.types)
    (hx : s.Indexed) (hp : s.position? d.id = some i) (hf : d.fit? c = some fit) :
    fromDeclarations s q c = .ok (some (.bind (.single c (fit.target i)))) := by
  obtain ⟨m, hm, hso⟩ := h.finished
  have hd : d ∈ s.candidates c :=
    hm ▸ ((State.mem_map_resolvedMatches hx hi).1 (List.mem_map_of_mem hso.mem)).1
  obtain rfl := (State.mem_resolvedMatches_iff hx hi hd hp hf).1 ⟨hso.mem, hm⟩
  have hpick := pick_eq_one_iff.2 hso
  by_cases hgive : (d.isDefault && (s.awaited c).isSome) = true
  · -- A default gives way, but is found among the declarations again.
    have hr : s.findResolved c = .absent := by
      rw [State.findResolved, hpick]
      exact if_pos hgive
    have hd : s.findDeclaration c = .one d := by
      obtain ⟨hdef, ha⟩ := Bool.and_eq_true_iff.1 hgive
      rw [State.findDeclaration, State.declaredMatches_eq hi.sound]
      exact pick_eq_one_iff.2 (h.declared hdef ((State.isSome_awaited_iff hi.sound).1 ha))
    simp [fromDeclarations, hr, hd, hp, hf, Choice.settle, checked, bind, Except.bind, pure,
      Except.pure]
  · have hr : s.findResolved c = .one ⟨i, d, fit⟩ := by
      rw [State.findResolved, hpick]
      exact if_neg hgive
    rw [fromDeclarations, hr]
    rfl

/-- A claim is bound to a finished component only if that prevails. -/
theorem prevails_of_fromDeclarations (hi : s.Identified r.types) (hx : s.Indexed)
    (hd : s.catalog.Declares r.types d) (hp : s.position? d.id = some i)
    (hf : d.fit? c = some fit)
    (h : fromDeclarations s q c = .ok (some (.bind (.single c (fit.target i))))) :
    s.Prevails c d := by
  -- The claim is bound to what is at this position.
  obtain ⟨n, hn, rfl⟩ := State.exists_node_of_position? hi hd hp
  have hindex {t : Target} (h : (.ok (some (Decision.bind (.single c t))) : Except Interrupt _) =
      .ok (some (.bind (.single c (fit.target i))))) : t.index = i := by
    simp only [Except.ok.injEq, Option.some.injEq, Decision.bind.injEq] at h
    exact Edge.index_eq_of_single h
  obtain ⟨m?, hm, h⟩ := bind_eq_ok.1 h
  cases m? with
  | some m =>
    have hfav := (State.findResolved_eq_one_iff hi.sound).1 (settle_eq_some (checked_eq_ok.1 hm))
    have hmn : m.source = n.source := by
      obtain ⟨⟨es, hn'⟩, -⟩ := (State.mem_resolvedMatches hx hi).1 hfav.standsOut.mem
      rw [show m.position = i from hindex h, hn, Option.some.injEq] at hn'
      rw [hn']
    refine ⟨⟨m, hmn, hfav.standsOut⟩, fun hdef ⟨x, hx, hnd, hu⟩ => ?_⟩
    simp [hfav.unshadowed (hmn ▸ hdef) x hx hnd] at hu
  | none =>
    have hr := settle_eq_none (checked_eq_ok.1 hm)
    obtain ⟨d?, hd', h⟩ := bind_eq_ok.1 h
    cases d? with
    | none => cases h
    | some d =>
      have hso : StandsOut c id (s.candidates c) d := by
        rw [← State.declaredMatches_eq hi.sound]
        exact pick_eq_one_iff.1 (settle_eq_some (checked_eq_ok.1 hd'))
      dsimp only at h
      split at h
      · next j fit' hp' hf' =>
        have hs := (State.mem_candidates.1 hso.mem).1
        obtain ⟨n', hn', rfl⟩ :=
          State.exists_node_of_position? hi (Catalog.declares_of_mem hi.sound hs) hp'
        rw [show j = i from hindex h, hn, Option.some.injEq] at hn'
        subst hn'
        have hown := ((State.mem_resolvedMatches_iff hx hi hso.mem hp hf).2 rfl).1
        exact ⟨⟨_, rfl, State.standsOut_of_absent hx hi hso hr hown⟩, fun _ _ => hso⟩
      · cases h

/-- **A claim is bound to a finished component exactly if that prevails.** -/
theorem decide_eq_bind_iff (hi : s.Identified r.types) (hx : s.Indexed)
    (hk : c.kind.isSingle = true) (hd : s.catalog.Declares r.types d)
    (hp : s.position? d.id = some i) (hf : d.fit? c = some fit) (stack : List Frame) :
    r.decide n round { s with stack } q c = .ok (.bind (.single c (fit.target i))) ↔
      s.Prevails c d := by
  -- Look-ups do not depend on the stack.
  have hstack : fromDeclarations { s with stack } q c = fromDeclarations s q c := rfl
  constructor
  · intro h
    obtain ⟨x?, hx?, -⟩ := bind_eq_ok.1 h
    rw [hstack] at hx?
    cases x? with
    | some x =>
      rw [decide_of_declarations (hstack.trans hx?)] at h
      cases h
      exact prevails_of_fromDeclarations hi hx hd hp hf hx?
    | none =>
      have hn := declaredMatches_of_declarations hx?
      cases decides_of_decide hk h with
      | bind he => simpa using he.withStack.constructionTargets_eq_nil hx hi hn
  · exact fun h =>
      decide_of_declarations (hstack.trans (fromDeclarations_of_prevails h hi hx hp hf))

/-! ## What is to be built -/

/-- A declaration that a claim finds, but not finished, is chosen. -/
theorem chosen_of_declarations (hi : s.Identified r.types) (hx : s.Indexed)
    (h : fromDeclarations s q c = .ok (some (.build d catalog))) :
    catalog = s.catalog ∧ s.Chosen c d := by
  obtain ⟨m?, hm, h⟩ := bind_eq_ok.1 h
  cases m? with
  | some m => cases h
  | none =>
    have hr := settle_eq_none (checked_eq_ok.1 hm)
    obtain ⟨d?, hd, h⟩ := bind_eq_ok.1 h
    cases d? with
    | none => cases h
    | some d' =>
      have hd := settle_eq_some (checked_eq_ok.1 hd)
      have hso : StandsOut c id (s.candidates c) d' := by
        rw [State.findDeclaration, State.declaredMatches_eq hi.sound] at hd
        exact pick_eq_one_iff.1 hd
      dsimp only at h
      split at h
      · cases h
      · next hne =>
        obtain ⟨rfl, rfl⟩ : d' = d ∧ s.catalog = catalog := by
          simpa [pure, Except.pure] using h
        -- The declaration fits, so there is no position.
        have hu : s.isResolved d'.id = false := by
          obtain ⟨fit, hf⟩ := Option.isSome_iff_exists.1 (State.mem_candidates.1 hso.mem).2.2
          cases hp : s.position? d'.id with
          | none => simp [State.isResolved, hp]
          | some i => exact absurd hf (hne i fit hp)
        refine ⟨rfl, hso, fun x hxs hxr => ?_, hu⟩
        obtain ⟨m, hm, rfl⟩ :=
          List.mem_map.1 ((State.mem_map_resolvedMatches hx hi).2 ⟨hxs, hxr⟩)
        rcases State.standsOut_of_findResolved hr with hnil | ⟨m', hm', hdef, -⟩
        · rw [hnil] at hm
          cases hm
        · exact State.isDefault_of_standsOut hx hi hso hu hm' hdef hm

/-- What is declared on the fly for a claim satisfies it. -/
theorem fits_of_supplies {b : Nat} {draft : Draft} (hs : Supplies r s c draft)
    (hr : s.catalog.registerSource? r.types b draft = some (d, catalog)) : d.Fits c := by
  obtain ⟨hl, e, -⟩ := Catalog.added_of_registerSource? hr
  exact hl.fits_iff.2 (e ▸ hs.satisfies _)

/-- What is to be built for a claim satisfies it. -/
theorem fits_of_decide (hk : c.kind.isSingle = true)
    (h : r.decide n round s q c = .ok (.build d catalog)) : d.Fits c := by
  cases decides_of_decide hk h with
  | await hd => exact (State.mem_sources_of_mem_declaredMatches hd.declared).2.2
  | supply hn hs hr => exact fits_of_supplies hs hr

/-- What is declared on the fly for a claim that nothing satisfies is chosen. -/
theorem chosen_of_supplies {b : Nat} {draft : Draft} (hi : s.Identified r.types)
    (ht : d.isTemplate = false) (hn : s.declaredMatches c = []) (hs : Supplies r s c draft)
    (hr : s.catalog.registerSource? r.types b draft = some (d, catalog)) :
    { s with catalog }.Chosen c d := by
  obtain ⟨-, -, hu, -⟩ := hi.register hr
  obtain ⟨hl, e, ha⟩ := Catalog.added_of_registerSource? hr
  have hp : d.isProxy = false :=
    (congrArg (fun d => d.toDraft.isProxy) e).trans hs.isProxy
  -- It is the only declaration that satisfies the claim.
  have hone : { s with catalog }.candidates c = [d] := by
    cases ha with
    | template h =>
      rw [← e, ht] at h
      cases h
    | @source x h hx e' =>
      obtain rfl := hx.ext hl (e'.trans e.symm)
      rw [State.declaredMatches_eq hi.sound, State.candidates] at hn
      simp [State.candidates, Catalog.addSource, List.filter_append, hn, hp,
        fits_of_supplies hs hr]
  refine ⟨.only hone, fun x hx hxr => ?_, hu⟩
  rw [hone, List.mem_singleton] at hx
  rw [hx] at hxr
  exact absurd (hu.symm.trans hxr) Bool.false_ne_true

/-- **What is to be built for a claim is chosen for it**, unless it is a template again. -/
theorem chosen_of_decide {stack : List Frame} (hi : s.Identified r.types) (hx : s.Indexed)
    (hk : c.kind.isSingle = true) (ht : d.isTemplate = false)
    (h : r.decide n round { s with stack } q c = .ok (.build d catalog)) :
    { s with catalog }.Chosen c d := by
  obtain ⟨d?, hd, -⟩ := bind_eq_ok.1 h
  cases d? with
  | some x =>
    rw [decide_of_declarations hd] at h
    cases h
    obtain ⟨rfl, hc⟩ := chosen_of_declarations (s := s) hi hx hd
    exact hc
  | none =>
    have hn : s.declaredMatches c = [] := declaredMatches_of_declarations hd
    cases (decides_of_decide hk h).withStack with
    | await hd =>
      have := hd.declared
      rw [hn] at this
      cases this
    | supply hn hs hr => exact chosen_of_supplies hi ht hn hs hr

end Resolver

end Wiring
