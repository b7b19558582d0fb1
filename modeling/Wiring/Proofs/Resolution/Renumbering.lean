import Wiring.Proofs.Resolution.Groundness
import Wiring.Proofs.Resolution.Ambiguity
/-!
# Renumbered states

Identities tell declarations apart and are good for nothing else. So if the declarations of a state
receive other identities (`State.Padded`), and declarations that no claim is on are added to its
catalog (`Source.Idle`), then all that is looked up in it is found as before, under the new
identities: the positions of finished components, the matches of a claim, and the interceptors that
are still to be built.

The new identities are given by a function `f`, and `N` holds the names of the types that may be
claimed.
-/

namespace Wiring

variable {f : Nat → Nat} {N : String → Prop}

/-! ## New identities -/

/-- The edge, in which a proxy waits for the new identity. -/
def Edge.renumber (f : Nat → Nat) : Edge → Edge
  | .proxyParameter c d target => .proxyParameter c (f d) target
  | e => e

@[simp] theorem Edge.renumber_single (c : Claim) (t : Target) :
    (Edge.single c t).renumber f = .single c t := by
  unfold Edge.single
  split <;> rfl

/-- The source under its new identity. -/
def Source.renumber (f : Nat → Nat) (d : Source) : Source := { d with id := f d.id }

@[simp] theorem Source.id_renumber (d : Source) : (d.renumber f).id = f d.id := rfl

/-- The finished component under its new identity. -/
def Node.renumber (f : Nat → Nat) (n : Node) : Node :=
  ⟨n.source.renumber f, n.edges.map (Edge.renumber f)⟩

/-- The component that is worked on, under its new identity. -/
def ComponentFrame.renumber (f : Nat → Nat) (w : ComponentFrame) : ComponentFrame :=
  { w with source := w.source.renumber f, edges := w.edges.map (Edge.renumber f) }

theorem ComponentFrame.renumber_answer (w : ComponentFrame) (e : Edge) :
    (w.answer e).renumber f = (w.renumber f).answer (e.renumber f) := by
  simp [renumber, answer]

/-- The frame under the new identity of its declaration. -/
def Frame.renumber (f : Nat → Nat) : Frame → Frame
  | .root d => .root (d.renumber f)
  | .component w => .component (w.renumber f)

theorem Frame.source?_renumber (x : Frame) :
    (x.renumber f).source? = x.source?.map (Source.renumber f) := by
  cases x <;> rfl

/-- The match under the new identity of its declaration. -/
def Match.renumber (f : Nat → Nat) (m : Match) : Match := { m with source := m.source.renumber f }

/-- A source does not depend on the identity of its declaration. -/
theorem Source.ofDeclaration?_declare (u : Universe) (n : Nat) (d : Draft) (id : Nat) :
    ofDeclaration? u n (d.declare (f id)) =
      (ofDeclaration? u n (d.declare id)).map (Source.renumber f) := by
  unfold ofDeclaration?
  have ht : (d.declare (f id)).type = (d.declare id).type := rfl
  rw [ht]
  cases u.upward? n [(d.declare id).type] with
  | none => rfl
  | some own => cases u.upward? n (u.unwrap? (d.declare id).type).toList <;> rfl

/-! ## Candidates -/

/-- The choice of another presentation of the candidates. -/
def Choice.map {α β : Type} (g : α → β) : Choice α → Choice β
  | .absent => .absent
  | .one a => .one (g a)
  | .ambiguous all => .ambiguous (all.map g)

section Choice

variable {α β : Type} {g : α → β} (source : α → Source) (source' : β → Source)

/-- **Which candidate is taken** does not depend on identities. -/
theorem pick_map (hg : ∀ a, source' (g a) = (source a).renumber f) (c : Claim) (l : List α) :
    pick c source' (l.map g) = (pick c source l).map g := by
  have hd : (fun b => !(source' b).isDefault) ∘ g = fun a => !(source a).isDefault := by
    funext a
    rw [Function.comp_apply, hg]
    rfl
  have he : (fun b => (source' b).isExact c) ∘ g = fun a => (source a).isExact c := by
    funext a
    rw [Function.comp_apply, hg]
    rfl
  match l with
  | [] | [_] => rfl
  | a :: b :: rest =>
    have hl : (a :: b :: rest).map g = g a :: g b :: rest.map g := rfl
    unfold pick
    simp only [hl]
    rw [← hl, List.filter_map, List.filter_map, hd, he]
    generalize (a :: b :: rest).filter (fun a => !(source a).isDefault) = others
    generalize (a :: b :: rest).filter (fun a => (source a).isExact c) = exact
    rcases others with _ | ⟨x, _ | ⟨y, others⟩⟩ <;> rcases exact with _ | ⟨z, _ | ⟨w, exact⟩⟩ <;> rfl

theorem settle_map (hg : ∀ a, source' (g a) = (source a).renumber f) (ch : Choice α) (c : Claim)
    (q : Source) : (ch.map g).settle c (q.renumber f) source' =
      (ch.settle c q source).map (Option.map g) := by
  cases ch with
  | absent | one => rfl
  | ambiguous all =>
    have hr : (fun b => (source' b).render) ∘ g = fun a => (source a).render := by
      funext a
      rw [Function.comp_apply, hg]
      rfl
    simp only [Choice.map, Choice.settle, List.map_map, hr]
    rfl

end Choice

/-! ## Catalogs with more declarations -/

/-- Nothing is done with the source: its identity is none of the new ones, it is neither a root nor
an interceptor, and it provides no type that may be claimed. -/
structure Source.Idle (f : Nat → Nat) (N : String → Prop) (d : Source) : Prop where
  /-- Its identity is none of the new ones. -/
  foreign : ∀ id, f id ≠ d.id
  /-- It is no root. -/
  isRoot : d.isRoot = false
  /-- It is no interceptor. -/
  intercepted : d.intercepted = none
  /-- It provides no type that may be claimed. -/
  provides : ∀ x ∈ d.providedNames, ¬ N x

theorem TypeExpr.Within.name {t : TypeExpr} (h : t.Within N) : N t.name := by
  cases h with
  | var h => exact h.elim
  | named hn => exact hn

theorem Source.Idle.not_fits {d : Source} {c : Claim} (h : d.Idle f N) (hc : c.type.Within N) :
    ¬ d.Fits c := fun hf =>
  h.provides _ (name_mem_providedNames hf) hc.name

namespace Source

/-- The second list holds the sources of the first under their new identities, in the same order,
and idle ones between them. -/
inductive Padded (f : Nat → Nat) (N : String → Prop) : List Source → List Source → Prop
  /-- Neither holds any. -/
  | nil : Padded f N [] []
  /-- Both hold a source. -/
  | shared (d : Source) {l l' : List Source} (h : Padded f N l l') :
      Padded f N (d :: l) (d.renumber f :: l')
  /-- The second holds an idle source. -/
  | idle {d : Source} {l l' : List Source} (hd : d.Idle f N) (h : Padded f N l l') :
      Padded f N l (d :: l')

variable {l l' m m' : List Source} {p q : Source → Bool}

theorem Padded.append (h : Padded f N l l') (h' : Padded f N m m') :
    Padded f N (l ++ m) (l' ++ m') := by
  induction h with
  | nil => exact h'
  | shared d _ ih => exact .shared d ih
  | idle hd _ ih => exact .idle hd ih

theorem padded_of_idle (h : ∀ d ∈ l, d.Idle f N) : Padded f N [] l := by
  induction l with
  | nil => exact .nil
  | cons d l ih =>
    exact .idle (h d List.mem_cons_self) (ih fun x hx => h x (List.mem_cons_of_mem _ hx))

/-- Sources that keep their identities are not changed. -/
theorem padded_of_fixed (h : ∀ d ∈ l, f d.id = d.id) : Padded f N l l := by
  induction l with
  | nil => exact .nil
  | cons d l ih =>
    have hd : d.renumber f = d := by
      rw [renumber, h d List.mem_cons_self]
    have hp := Padded.shared d (ih fun x hx => h x (List.mem_cons_of_mem _ hx))
    rwa [hd] at hp

/-- **A search that passes over idle sources** finds the same, whatever it looks for. -/
theorem Padded.filter (h : Padded f N l l') (hp : ∀ d, d.Idle f N → p d = false)
    (hq : ∀ d, p (d.renumber f) = q d) : l'.filter p = (l.filter q).map (renumber f) := by
  induction h with
  | nil => rfl
  | shared d _ ih =>
    rw [List.filter_cons, List.filter_cons, hq, ih]
    split <;> rfl
  | idle hd _ ih => rw [List.filter_cons_of_neg (by simp [hp _ hd]), ih]

theorem Padded.find? (h : Padded f N l l') (hp : ∀ d, d.Idle f N → p d = false)
    (hq : ∀ d, p (d.renumber f) = q d) : l'.find? p = (l.find? q).map (renumber f) := by
  rw [← List.head?_filter, ← List.head?_filter, h.filter hp hq, List.head?_map]

end Source

namespace Catalog

variable {u : Universe} {c c' : Catalog} {d : Source} {draft : Draft} {n : Nat} {claim : Claim}

/-- The second catalog holds the declarations of the first under their new identities, and idle
ones. -/
structure Padded (f : Nat → Nat) (N : String → Prop) (c c' : Catalog) : Prop where
  /-- The sources. -/
  sources : Source.Padded f N c.sources c'.sources
  /-- The templates keep their identities. -/
  templates : c'.templates = c.templates
  /-- What is declared next receives new identities in the same order. -/
  nextId : ∀ k, f (c.nextId + k) = c'.nextId + k

theorem Padded.addSource (h : c.Padded f N c') (d : Source) :
    (c.addSource d).Padded f N (c'.addSource (d.renumber f)) where
  sources := h.sources.append (.shared d .nil)
  templates := h.templates
  nextId k := by
    rw [Catalog.addSource, Catalog.addSource]
    dsimp only
    rw [Nat.add_assoc, Nat.add_assoc]
    exact h.nextId (1 + k)

/-- **A source that is declared** in one catalog is declared in the other, under its new identity. -/
theorem Padded.registerSource? (h : c.Padded f N c') (hd : draft.isTemplate = false) :
    Option.Rel (fun x y => y.1 = x.1.renumber f ∧ x.2.Padded f N y.2)
      (c.registerSource? u n draft) (c'.registerSource? u n draft) := by
  have he : c'.declare draft = draft.declare (f c.nextId) := congrArg draft.declare (h.nextId 0).symm
  unfold Catalog.registerSource?
  dsimp only
  rw [he, Source.ofDeclaration?_declare, Draft.isTemplate_declare, Catalog.declare,
    Draft.isTemplate_declare, hd]
  cases Source.ofDeclaration? u n (draft.declare c.nextId) with
  | none => exact .none
  | some s => exact .some ⟨rfl, h.addSource s⟩

theorem Padded.roots (h : c.Padded f N c') : c'.roots = c.roots.map (Source.renumber f) :=
  h.sources.filter (fun _ hd => hd.isRoot) fun _ => rfl

theorem Padded.interceptors (h : c.Padded f N c') :
    c'.interceptors = c.interceptors.map (Source.renumber f) :=
  h.sources.filter (fun _ hd => by rw [hd.intercepted]; rfl) fun _ => rfl

theorem Padded.providedNames (h : c.Padded f N c') (hf : f.Injective) (id : Nat) :
    c'.providedNames (f id) = c.providedNames id := by
  have hs : c'.source? (f id) = (c.source? id).map (Source.renumber f) := by
    exact h.sources.find? (fun d hd => beq_false_of_ne (hd.foreign id).symm) fun d => hf.beq_eq
  rw [Catalog.providedNames, Catalog.providedNames, hs]
  cases c.source? id <;> rfl

end Catalog

/-! ## States -/

namespace State

variable {u : Universe} {s t : State} {c : Claim} {d : Source} {id : Nat} {es : List Edge}

/-- The second state is the first under new identities, and with idle declarations beside those of
the first. -/
structure Padded (f : Nat → Nat) (N : String → Prop) (s t : State) : Prop where
  /-- The declarations. -/
  catalog : s.catalog.Padded f N t.catalog
  /-- The finished components. -/
  resolved : t.resolved = s.resolved.map (Node.renumber f)
  /-- They are filed in the same way. -/
  index : t.index = s.index
  /-- What is still to be done. -/
  stack : t.stack = s.stack.map (Frame.renumber f)
  /-- The proxies. -/
  proxies : t.proxies = s.proxies.map fun e => ((e.1.1, f e.1.2), e.2)
  /-- The depth of forks is the same. -/
  forkDepth : t.forkDepth = s.forkDepth

theorem Padded.start {c c' : Catalog} (h : c.Padded f N c') :
    (start c).Padded f N (start c') where
  catalog := h
  resolved := rfl
  index := rfl
  stack := by
    rw [State.start, State.start, h.roots]
    simp [Frame.renumber]
  proxies := rfl
  forkDepth := rfl

theorem Padded.withStack (h : s.Padded f N t) (stack : List Frame) :
    { s with stack }.Padded f N { t with stack := stack.map (Frame.renumber f) } :=
  ⟨h.catalog, h.resolved, h.index, rfl, h.proxies, h.forkDepth⟩

theorem Padded.withCatalog {catalog catalog' : Catalog} (h : s.Padded f N t)
    (hc : catalog.Padded f N catalog') :
    { s with catalog }.Padded f N { t with catalog := catalog' } :=
  ⟨hc, h.resolved, h.index, h.stack, h.proxies, h.forkDepth⟩

theorem Padded.withDepth (h : s.Padded f N t) (k : Nat) :
    { s with forkDepth := k }.Padded f N { t with forkDepth := k } :=
  ⟨h.catalog, h.resolved, h.index, h.stack, h.proxies, rfl⟩

/-! ### What is finished and what is in progress -/

theorem Padded.position? (h : s.Padded f N t) (hf : f.Injective) (id : Nat) :
    t.position? (f id) = s.position? id := by
  rw [State.position?, State.position?, h.resolved, List.findIdx?_map]
  congr 1
  funext n
  exact hf.beq_eq

theorem Padded.isResolved (h : s.Padded f N t) (hf : f.Injective) (id : Nat) :
    t.isResolved (f id) = s.isResolved id :=
  congrArg Option.isSome (h.position? hf id)

theorem Padded.inProgress (h : s.Padded f N t) :
    t.inProgress = s.inProgress.map (Source.renumber f) := by
  rw [State.inProgress, State.inProgress, h.stack, List.filterMap_map, List.map_filterMap]
  exact List.filterMap_congr fun x _ => x.source?_renumber

theorem Padded.isInProgress (h : s.Padded f N t) (hf : f.Injective) (id : Nat) :
    t.isInProgress (f id) = s.isInProgress id := by
  rw [State.isInProgress, State.isInProgress, h.inProgress, List.any_map]
  congr 1
  funext d
  exact hf.beq_eq

theorem Padded.chain (h : s.Padded f N t) : t.chain = s.chain := by
  rw [State.chain, State.chain, h.inProgress, ← List.map_reverse, List.map_map]
  rfl

theorem Padded.wrapping (h : s.Padded f N t) (hf : f.Injective) (d : Source) :
    t.wrapping (d.renumber f) = (s.wrapping d).map (Source.renumber f) := by
  rw [State.wrapping, State.wrapping, h.catalog.interceptors, List.filter_map]
  congr 2
  funext i
  have hid : (f i.id != f d.id) = (i.id != d.id) := congrArg not hf.beq_eq
  simp only [Function.comp_apply, Source.id_renumber, hid, h.isResolved hf, h.isInProgress hf]
  rfl

theorem Padded.push (h : s.Padded f N t) (hf : f.Injective) (d : Source) :
    (s.push d).Padded f N (t.push (d.renumber f)) := by
  have hstack : (t.push (d.renumber f)).stack = (s.push d).stack.map (Frame.renumber f) := by
    simp only [State.push, h.wrapping hf, h.stack, ← List.map_cons, List.map_append,
      List.map_reverse, List.map_map]
    rfl
  exact ⟨h.catalog, h.resolved, h.index, hstack, h.proxies, h.forkDepth⟩

theorem Padded.commit (h : s.Padded f N t) (hf : f.Injective) (d : Source) (es : List Edge) :
    (s.commit d es).Padded f N (t.commit (d.renumber f) (es.map (Edge.renumber f))) where
  catalog := h.catalog
  resolved := by
    simp only [State.commit, h.resolved, List.map_append]
    rfl
  index := by
    simp only [State.commit, h.index, h.resolved, List.length_map, Source.id_renumber,
      h.catalog.providedNames hf]
  stack := h.stack
  proxies := h.proxies
  forkDepth := h.forkDepth

/-! ### What satisfies a claim -/

/-- **The declarations that satisfy a claim** are the same. -/
theorem Padded.declaredMatches (h : s.Padded f N t) (hs : s.catalog.Sound u)
    (ht : t.catalog.Sound u) (hc : c.type.Within N) :
    t.declaredMatches c = (s.declaredMatches c).map (Source.renumber f) := by
  rw [declaredMatches_eq ht, declaredMatches_eq hs]
  refine h.catalog.sources.filter (fun d hd => ?_) fun d => rfl
  simp [hd.not_fits hc]

/-- **The finished components that satisfy a claim** are the same. -/
theorem Padded.resolvedMatches (h : s.Padded f N t) (c : Claim) :
    t.resolvedMatches c = (s.resolvedMatches c).map (Match.renumber f) := by
  rw [State.resolvedMatches, State.resolvedMatches, h.index, List.map_filterMap]
  refine List.filterMap_congr fun i _ => ?_
  rw [h.resolved, List.getElem?_map]
  cases s.resolved[i]? with
  | none => rfl
  | some n =>
    have hp : (n.renumber f).source.isProxy = n.source.isProxy := rfl
    have hfit : (n.renumber f).source.fit? c = n.source.fit? c := rfl
    simp only [Option.map_some, Option.bind_eq_bind, Option.bind_some, hp, hfit]
    split
    · rfl
    · cases n.source.fit? c <;> rfl

theorem Padded.awaited (h : s.Padded f N t) (hf : f.Injective) (hs : s.catalog.Sound u)
    (ht : t.catalog.Sound u) (hc : c.type.Within N) :
    t.awaited c = (s.awaited c).map (Source.renumber f) := by
  rw [State.awaited, State.awaited, h.declaredMatches hs ht hc, List.find?_map]
  congr 2
  funext d
  simp only [Function.comp_apply, Source.id_renumber, h.isResolved hf]
  rfl

theorem Padded.findResolved (h : s.Padded f N t) (hf : f.Injective) (hs : s.catalog.Sound u)
    (ht : t.catalog.Sound u) (hc : c.type.Within N) :
    t.findResolved c = (s.findResolved c).map (Match.renumber f) := by
  rw [State.findResolved, State.findResolved, h.resolvedMatches,
    pick_map (f := f) Match.source Match.source (fun _ => rfl), h.awaited hf hs ht hc,
    Option.isSome_map]
  cases pick c Match.source (s.resolvedMatches c) with
  | absent | ambiguous => rfl
  | one m =>
    dsimp only [Choice.map]
    have hm : (m.renumber f).source.isDefault = m.source.isDefault := rfl
    rw [hm]
    split <;> rfl

theorem Padded.findDeclaration (h : s.Padded f N t) (hs : s.catalog.Sound u)
    (ht : t.catalog.Sound u) (hc : c.type.Within N) :
    t.findDeclaration c = (s.findDeclaration c).map (Source.renumber f) := by
  rw [State.findDeclaration, State.findDeclaration, h.declaredMatches hs ht hc]
  exact pick_map (f := f) id id (fun _ => rfl) c _

end State

end Wiring
