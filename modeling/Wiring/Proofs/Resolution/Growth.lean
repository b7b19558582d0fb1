import Wiring.Proofs.Resolution.Runs
/-!
# What moves do to a state

Moves only add to the finished components and to the catalog (`State.Grows`, `Resolver.Move.grows`),
so what is known of these need not be proved again after a move. The stack changes at its top:
frames are put there by `State.push`, whose effect on the stack is described here once.
`Frame.Each` is for what is known of a frame together with those below it.
-/

namespace Wiring

/-! ## Edges of claims on one instance -/

@[simp] theorem Edge.claim_single (c : Claim) (t : Target) : (single c t).claim = c := by
  unfold single
  split <;> rfl

@[simp] theorem Edge.constructionTargets_single (c : Claim) (t : Target) :
    (single c t).constructionTargets = [t.index] := by
  unfold single
  split <;> rfl

theorem Edge.index_eq_of_single {c : Claim} {t t' : Target} (h : single c t = single c t') :
    t.index = t'.index := by
  simpa using congrArg constructionTargets h

/-! ## Frames and those below them -/

namespace Frame

variable {P Q : Frame → List Frame → Prop} {f : Frame} {stack : List Frame}

/-- The property holds of each frame and the frames below it. -/
def Each (P : Frame → List Frame → Prop) : List Frame → Prop
  | [] => True
  | f :: below => P f below ∧ Each P below

theorem Each.mono (h : Each P stack) (hPQ : ∀ f below, P f below → Q f below) : Each Q stack := by
  induction stack with
  | nil => trivial
  | cons f below ih => exact ⟨hPQ f below h.1, ih h.2⟩

theorem Each.exists_of_mem (h : Each P stack) (hf : f ∈ stack) : ∃ below, P f below := by
  induction stack with
  | nil => cases hf
  | cons g below ih =>
    rcases List.mem_cons.1 hf with rfl | hf
    · exact ⟨below, h.1⟩
    · exact ih h.2 hf

theorem mem_ids {id : Nat} : id ∈ ids stack ↔ ∃ f, .component f ∈ stack ∧ f.source.id = id := by
  induction stack with
  | nil => simp
  | cons g below ih => cases g <;> simp [ih, or_and_right, exists_or, eq_comm]

/-- At the start no component is in progress. -/
theorem ids_roots (ds : List Source) : ids (ds.map .root) = [] := by
  induction ds with
  | nil => rfl
  | cons d ds ih => exact ih

theorem each_roots {ds : List Source}
    (h : ∀ d ∈ ds, ∀ below, ids below = [] → P (.root d) below) : Each P (ds.map .root) := by
  induction ds with
  | nil => trivial
  | cons d ds ih =>
    exact ⟨h d List.mem_cons_self _ (ids_roots ds), ih fun x hx => h x (List.mem_cons_of_mem _ hx)⟩

/-- The frames of components that are started one after the other. -/
def started (ds : List Source) : List Frame := (ds.map fun d => .component (.start d)).reverse

theorem started_concat (ds : List Source) (d : Source) :
    started (ds ++ [d]) = .component (.start d) :: started ds := by
  simp [started]

theorem ids_started (ds : List Source) : ids (started ds) = (ds.map (·.id)).reverse := by
  induction ds using List.reverseRecOn with
  | nil => rfl
  | append_singleton ds d ih =>
    rw [started_concat, ids_component, ih, List.map_append, List.reverse_append]
    rfl

theorem Each.started {ds : List Source} (h : Each P stack)
    (hs : ∀ as d bs, ds = as ++ d :: bs → P (.component (.start d)) (started as ++ stack)) :
    Each P (started ds ++ stack) := by
  induction ds using List.reverseRecOn with
  | nil => exact h
  | append_singleton ds d ih =>
    rw [started_concat]
    exact ⟨hs ds d [] rfl, ih fun as x bs e => hs as x (bs ++ [d]) (by simp [e])⟩

end Frame

/-! ## Pushing and committing -/

namespace State

variable {s t : State} {d x : Source} {f : Frame} {n : Node} {id i : Nat}

/-- The interceptors that are started with a component are declared, and neither finished nor in
progress. -/
theorem mem_wrapping (h : x ∈ s.wrapping d) :
    x ∈ s.catalog.sources ∧ x.id ≠ d.id ∧ s.isResolved x.id = false ∧
      x.id ∉ Frame.ids s.stack := by
  obtain ⟨hx, h⟩ := List.mem_filter.1 h
  simp only [Bool.and_eq_true, bne_iff_ne, Bool.not_eq_true', ← Bool.not_eq_true,
    isInProgress_iff] at h
  exact ⟨List.mem_of_mem_filter hx, h.1.1.1, by simpa using h.1.2, h.2⟩

theorem intercepts_of_mem_wrapping (h : x ∈ s.wrapping d) :
    x.intercepted.isSome = true ∧ d.isInterceptedBy x = true := by
  obtain ⟨hx, h⟩ := List.mem_filter.1 h
  simp only [Bool.and_eq_true] at h
  exact ⟨(List.mem_filter.1 hx).2, h.1.1.2⟩

theorem nodup_wrapping {u : Universe} (h : s.catalog.Sound u) :
    ((s.wrapping d).map (·.id)).Nodup := by
  have hl : (s.catalog.sources.map (·.id)).Nodup := by
    have := h.distinct
    rw [Catalog.declarations, List.map_append, List.map_map] at this
    exact (List.nodup_append.1 this).1
  refine hl.sublist (List.Sublist.map _ ?_)
  exact List.filter_sublist.trans List.filter_sublist

theorem stack_push (s : State) (d : Source) :
    (s.push d).stack = Frame.started (d :: s.wrapping d) ++ s.stack := rfl

theorem ids_push (s : State) (d : Source) : Frame.ids (s.push d).stack =
    ((s.wrapping d).map (·.id)).reverse ++ d.id :: Frame.ids s.stack := by
  rw [stack_push, Frame.ids_append, Frame.ids_started, List.map_cons, List.reverse_cons,
    List.append_assoc, List.singleton_append]

theorem mem_ids_push (d : Source) (h : id ∈ Frame.ids s.stack) :
    id ∈ Frame.ids (s.push d).stack := by
  rw [ids_push]
  exact List.mem_append_right _ (List.mem_cons_of_mem _ h)

/-- The frames that are put on the stack are those of the component and of its interceptors. -/
theorem mem_push (h : f ∈ (s.push d).stack) :
    f ∈ s.stack ∨ ∃ x, (x = d ∨ x ∈ s.wrapping d) ∧ f = .component (.start x) := by
  rcases List.mem_append.1 h with h | h
  · obtain ⟨x, hx, rfl⟩ := List.mem_map.1 (List.mem_reverse.1 h)
    exact .inr ⟨x, List.mem_cons.1 hx, rfl⟩
  · exact .inl h

theorem mem_of_lookup {k : TypeExpr × Nat} (h : s.proxies.lookup k = some i) :
    (k, i) ∈ s.proxies := by
  obtain ⟨as, bs, e, -⟩ := List.lookup_eq_some_iff.1 h
  simp [e]

/-- The finished components are those from before and the one that is committed. -/
theorem getElem?_commit {es : List Edge} (h : (s.commit d es).resolved[i]? = some n) :
    s.resolved[i]? = some n ∨ i = s.resolved.length ∧ n = ⟨d, es⟩ := by
  rcases Nat.lt_trichotomy i s.resolved.length with hi | rfl | hi
  · exact .inl (by simpa [commit, List.getElem?_append_left hi] using h)
  · exact .inr ⟨rfl, by simpa [commit, eq_comm] using h⟩
  · have := (List.getElem?_eq_some_iff.1 h).1
    simp only [commit, List.length_append, List.length_singleton] at this
    omega

end State

/-- If a property holds of the frame of a component, and of those of its interceptors, which have
identities of their own, then it holds of all frames after the component is started. -/
theorem Frame.Each.push {P : Frame → List Frame → Prop} {u : Universe} {s : State} {d : Source}
    (hc : s.catalog.Sound u) (h : Each P s.stack) (hd : P (.component (.start d)) s.stack)
    (hi : ∀ x ∈ s.wrapping d, ∀ below, x.id ∉ ids below → P (.component (.start x)) below) :
    Each P (s.push d).stack := by
  rw [State.stack_push]
  refine h.started fun as x bs e => ?_
  cases as with
  | nil =>
    obtain ⟨rfl, -⟩ := List.cons.inj e
    exact hd
  | cons a as =>
    obtain ⟨rfl, hw⟩ : d = a ∧ s.wrapping d = as ++ x :: bs := List.cons.inj e
    have hx : x ∈ s.wrapping d := by simp [hw]
    obtain ⟨-, hne, -, hs⟩ := State.mem_wrapping hx
    have hn := State.nodup_wrapping (d := d) hc
    rw [hw, List.map_append, List.nodup_append] at hn
    refine hi x hx _ ?_
    rw [ids_append, ids_started, List.map_cons, List.reverse_cons]
    simp only [List.mem_append, List.mem_reverse, List.mem_singleton, not_or]
    exact ⟨⟨fun hm => hn.2.2 _ hm _ (by simp) rfl, hne⟩, hs⟩

/-! ## Growth -/

namespace State

variable {s t : State} {d x : Source} {f : Frame} {n : Node} {id i : Nat}

/-- What was finished and declared before still is. -/
structure Grows (s t : State) : Prop where
  /-- Finished components stay where they are. -/
  resolved : s.resolved <+: t.resolved
  /-- Declarations stay. -/
  catalog : s.catalog.Extends t.catalog

theorem Grows.trans {s' : State} (h : s.Grows t) (h' : t.Grows s') : s.Grows s' :=
  ⟨h.resolved.trans h'.resolved, h.catalog.trans h'.catalog⟩

theorem Grows.getElem? (h : s.Grows t) (hn : s.resolved[i]? = some n) :
    t.resolved[i]? = some n := by
  obtain ⟨ns, e⟩ := h.resolved
  have hi := (List.getElem?_eq_some_iff.1 hn).1
  rw [← e, List.getElem?_append_left hi, hn]

theorem Grows.isResolved (h : s.Grows t) (hd : s.isResolved id = true) :
    t.isResolved id = true := by
  obtain ⟨n, hn, e⟩ := isResolved_iff.1 hd
  exact isResolved_iff.2 ⟨n, h.resolved.mem hn, e⟩

theorem Grows.position? (h : s.Grows t) (hp : s.position? id = some i) :
    t.position? id = some i := by
  obtain ⟨ns, e⟩ := h.resolved
  rw [State.position?] at hp
  rw [State.position?, ← e, List.findIdx?_append, hp, Option.some_or]

theorem grows_commit (s : State) (d : Source) (es : List Edge) : s.Grows (s.commit d es) :=
  ⟨List.prefix_append _ _, .refl _⟩

section Forwarded

variable {u : Universe} {draft : Draft} {catalog : Catalog} {proxy : Source} {claimed : TypeExpr}

theorem grows_forwarded (h : s.catalog.Added u draft catalog) :
    s.Grows (s.forwarded catalog proxy d claimed) :=
  ⟨List.prefix_append _ _, h.extends⟩

/-- A proxy is finished as soon as it is declared. -/
theorem mem_or_isResolved_of_forwarded (h : s.catalog.Added u draft catalog)
    (e : proxy.toDeclaration = s.catalog.declare draft) (hx : x ∈ catalog.sources) :
    x ∈ s.catalog.sources ∨ (s.forwarded catalog proxy d claimed).isResolved x.id = true :=
  (h.mem_sources hx).imp_right fun e' =>
    isResolved_iff.2 ⟨_, List.mem_concat_self, congrArg Declaration.id (e.trans e'.symm)⟩

/-- A new proxy does not hide those before. -/
theorem lookup_forwarded {k : TypeExpr × Nat} (hp : s.proxies.lookup (claimed, d.id) = none)
    (hk : s.proxies.lookup k = some i) :
    (s.forwarded catalog proxy d claimed).proxies.lookup k = some i := by
  have hne : k ≠ (claimed, d.id) := by
    rintro rfl
    simp [hp] at hk
  rw [State.forwarded, List.lookup_cons, beq_false_of_ne hne]
  exact hk

end Forwarded

end State

/-- **A move keeps what is finished and what is declared.** -/
theorem Resolver.Move.grows {r : Resolver} {s t : State} (h : r.Move s t) : s.Grows t := by
  cases h with
  | skip | expand | bypass | answer | await | nest => exact ⟨List.prefix_rfl, .refl _⟩
  | forward hs hw hf hk ht hp hr =>
    exact State.grows_forwarded (Catalog.added_of_registerSource? hr).2.2
  | commit => exact ⟨List.prefix_append _ _, .refl _⟩
  | supply hs hb hf hn hd hr =>
    exact ⟨List.prefix_rfl, (Catalog.added_of_registerSource? hr).2.2.extends⟩
  | extend hr => exact ⟨List.prefix_rfl, (Catalog.added_of_register? hr).2.extends⟩

/-- **A move keeps the proxies that are remembered.** -/
theorem Resolver.Move.lookup {r : Resolver} {s t : State} {k : TypeExpr × Nat} {i : Nat}
    (h : r.Move s t) (hk : s.proxies.lookup k = some i) : t.proxies.lookup k = some i := by
  cases h with
  | forward hs hw hf hk' ht hp hr => exact State.lookup_forwarded hp hk
  | _ => exact hk

theorem Resolver.Moves.grows {r : Resolver} {s t : State} (h : Moves r s t) : s.Grows t := by
  induction h with
  | refl => exact ⟨List.prefix_rfl, .refl _⟩
  | tail _ h ih => exact ih.trans h.grows

end Wiring
