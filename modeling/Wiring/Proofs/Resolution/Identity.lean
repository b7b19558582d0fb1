import Wiring.Proofs.Resolution.Growth
/-!
# One component for each declaration

A component may be started while it is already in progress, and is then on the stack twice. Only
the look at the frame below keeps it from being finished twice: it waits with a claim, and so the
cycle is broken before the upper frame is worked on. That this frame is there is the invariant
`Frame.Grounded`: a component on the stack is either not in progress below, or stands right above
the frame of a component whose next claim it satisfies.

* `State.Identified.move`: moves keep the identities of finished components distinct, and different
  from those of the components in progress.
* `State.Pursued.move`: a root on the stack is started or found finished, and what is started is
  finished.
* `Resolver.one_component_per_declaration` puts them together.
-/

namespace Wiring

namespace Frame

/-- The identity of the declaration that the frame is about. -/
def id : Frame → Nat
  | .root d => d.id
  | .component f => f.source.id

/-- How a frame came to stand on those below. -/
inductive Grounded (u : Universe) (c : Catalog) : Frame → List Frame → Prop
  /-- No component is in progress below a root. -/
  | root {d : Source} {below : List Frame} (hd : d ∈ c.sources) (hb : ids below = []) :
      Grounded u c (.root d) below
  /-- The component is not in progress below. -/
  | fresh {f : ComponentFrame} {below : List Frame} (hd : c.Declares u f.source)
      (hb : f.source.id ∉ ids below) : Grounded u c (.component f) below
  /-- The component satisfies the next claim of the one below. -/
  | awaited {f w : ComponentFrame} {below : List Frame} {cl : Claim} {cs : List Claim}
      (hd : f.source ∈ c.sources) (hp : f.source.isProxy = false) (hw : w.pending = cl :: cs)
      (hf : f.source.Fits cl) : Grounded u c (.component f) (.component w :: below)

variable {u : Universe} {c c' : Catalog} {f g w : ComponentFrame} {below : List Frame}
  {frame : Frame}

theorem Grounded.mono (h : Grounded u c frame below) (hc : c.Extends c') :
    Grounded u c' frame below := by
  cases h with
  | root hd hb => exact .root (hc.sources.mem hd) hb
  | fresh hd hb => exact .fresh (hc.declares hd) hb
  | awaited hd hp hw hf => exact .awaited (hc.sources.mem hd) hp hw hf

theorem Grounded.declares (h : Grounded u c (.component f) below) (hc : c.Sound u) :
    c.Declares u f.source := by
  cases h with
  | fresh hd hb => exact hd
  | awaited hd hp hw hf => exact Catalog.declares_of_mem hc hd

/-- The frame of a component stays grounded while its claims are answered. -/
theorem Grounded.answer (h : Grounded u c (.component f) below) (e : g.source = f.source) :
    Grounded u c (.component g) below := by
  cases h with
  | fresh hd hb => exact .fresh (e ▸ hd) (e ▸ hb)
  | awaited hd hp hw hf => exact .awaited (e ▸ hd) (e ▸ hp) hw (e ▸ hf)

/-- **A component that closes no cycle is not in progress below.** -/
theorem Grounded.not_mem (h : Grounded u c (.component f) below)
    (hb : ¬ ClosesCycle f.source.id below) : f.source.id ∉ ids below := by
  cases h with
  | fresh hd hb => exact hb
  | awaited hd hp hw hf => exact fun hm => hb ⟨_, _, rfl, by simp [hw], hm⟩

/-- **A component that is in progress below satisfies the claim of the frame right below.** -/
theorem Grounded.of_mem {cl : Claim} {cs : List Claim}
    (h : Grounded u c (.component f) (.component w :: below)) (hw : w.pending = cl :: cs)
    (hf : f.source.id ∈ ids (.component w :: below)) :
    f.source ∈ c.sources ∧ f.source.isProxy = false ∧ f.source.Fits cl := by
  cases h with
  | fresh hd hb => exact absurd hf hb
  | awaited hd hp hw' hf =>
    obtain ⟨rfl, -⟩ := List.cons.inj (hw.symm.trans hw')
    exact ⟨hd, hp, hf⟩

end Frame

namespace State

open Resolver

variable {u : Universe} {r : Resolver} {s t : State} {d proxy : Source} {draft : Draft}
  {catalog : Catalog} {f w : ComponentFrame} {frame : Frame} {below stack : List Frame}
  {es : List Edge} {id i : Nat} {n : Node}

/-- Identities tell components apart, and none is both finished and in progress. -/
structure Identified (u : Universe) (s : State) : Prop where
  /-- The catalog is sound. -/
  sound : s.catalog.Sound u
  /-- Finished components are declared. -/
  declared : ∀ n ∈ s.resolved, s.catalog.Declares u n.source
  /-- No two finished components have the same identity. -/
  distinct : (s.resolved.map (·.source.id)).Nodup
  /-- Frames are declared, and twice on the stack only as the frame below demands. -/
  grounded : Frame.Each (Frame.Grounded u s.catalog) s.stack
  /-- No component in progress is finished. -/
  unresolved : ∀ id ∈ Frame.ids s.stack, s.isResolved id = false

/-- A finished component is the only declaration of its identity. -/
theorem Identified.source_eq (h : s.Identified u) (hn : n ∈ s.resolved)
    (hd : s.catalog.Declares u d) (e : n.source.id = d.id) : n.source = d :=
  (h.declared n hn).ext h.sound hd e

theorem identified_start {c : Catalog} (h : c.Sound u) : (start c).Identified u where
  sound := h
  declared := by simp [start]
  distinct := by simp [start]
  grounded := Frame.each_roots fun _ hd _ hb => .root (List.mem_of_mem_filter hd) hb
  unresolved := by simp [start, isResolved, position?]

/-- The stack is replaced by one with fewer components. -/
theorem Identified.withStack (h : s.Identified u)
    (hg : Frame.Each (Frame.Grounded u s.catalog) stack)
    (hs : ∀ id ∈ Frame.ids stack, id ∈ Frame.ids s.stack) : { s with stack }.Identified u where
  sound := h.sound
  declared := h.declared
  distinct := h.distinct
  grounded := hg
  unresolved id hid := h.unresolved id (hs id hid)

theorem Identified.top (h : s.Identified u) (hs : s.stack = frame :: below) :
    Frame.Grounded u s.catalog frame below := by
  have hg := h.grounded
  rw [hs] at hg
  exact hg.1

theorem Identified.tail (h : s.Identified u) (hs : s.stack = frame :: below) :
    { s with stack := below }.Identified u := by
  have hg := h.grounded
  rw [hs] at hg
  refine h.withStack hg.2 fun id hid => ?_
  rw [hs]
  cases frame <;> simp [hid]

/-- The first claim of the frame on top is answered. -/
theorem Identified.answer (h : s.Identified u) (hs : s.stack = .component f :: below) (e : Edge) :
    { s with stack := .component (f.answer e) :: below }.Identified u := by
  have hg := h.grounded
  rw [hs] at hg
  refine h.withStack ⟨hg.1.answer rfl, hg.2⟩ fun id hid => ?_
  rw [hs]
  exact hid

theorem Identified.push (h : s.Identified u)
    (hg : Frame.Grounded u s.catalog (.component (.start d)) s.stack)
    (hd : s.isResolved d.id = false) : (s.push d).Identified u where
  sound := h.sound
  declared := h.declared
  distinct := h.distinct
  grounded := by
    refine Frame.Each.push h.sound h.grounded hg fun x hx below hb => ?_
    exact .fresh (Catalog.declares_of_mem h.sound (mem_wrapping hx).1) hb
  unresolved id hid := by
    rw [ids_push] at hid
    rcases List.mem_append.1 hid with hid | hid
    · obtain ⟨x, hx, rfl⟩ := List.mem_map.1 (List.mem_reverse.1 hid)
      exact (mem_wrapping hx).2.2.1
    · rcases List.mem_cons.1 hid with rfl | hid
      · exact hd
      · exact h.unresolved id hid

theorem Identified.commit (h : s.Identified u) (hd : s.catalog.Declares u d)
    (hr : s.isResolved d.id = false) (hs : d.id ∉ Frame.ids s.stack) :
    (s.commit d es).Identified u where
  sound := h.sound
  declared n hn := by
    rcases List.mem_append.1 hn with hn | hn
    · exact h.declared n hn
    · rwa [List.mem_singleton.1 hn]
  distinct := by
    rw [State.commit, List.map_append, List.nodup_append]
    refine ⟨h.distinct, by simp, fun a ha b hb e => ?_⟩
    obtain ⟨n, hn, rfl⟩ := List.mem_map.1 ha
    exact isResolved_eq_false.1 hr n hn (by simpa [e] using hb)
  grounded := h.grounded
  unresolved id hid := by
    have hu := isResolved_eq_false.1 (h.unresolved id hid)
    refine isResolved_eq_false.2 fun n hn => ?_
    rcases List.mem_append.1 hn with hn | hn
    · exact hu n hn
    · rw [List.mem_singleton.1 hn]
      rintro rfl
      exact hs hid

/-- One more declaration has an identity that is new. -/
theorem Identified.withCatalog (h : s.Identified u) (ha : s.catalog.Added u draft catalog) :
    { s with catalog }.Identified u where
  sound := ha.sound h.sound
  declared n hn := ha.extends.declares (h.declared n hn)
  distinct := h.distinct
  grounded := h.grounded.mono fun _ _ hg => hg.mono ha.extends
  unresolved := h.unresolved

theorem Identified.declares (h : s.Identified u) (hf : .component f ∈ s.stack) :
    s.catalog.Declares u f.source := by
  obtain ⟨below, hg⟩ := h.grounded.exists_of_mem hf
  exact hg.declares h.sound

/-- No component of the next identity is finished. -/
theorem Identified.position?_nextId (h : s.Identified u) : s.position? s.catalog.nextId = none :=
  position?_eq_none.2 fun n hn => Nat.ne_of_lt (h.sound.fresh _ (h.declared n hn).2)

/-- A declaration that is about to be resolved is new: neither finished nor in progress. -/
theorem Identified.register {b : Nat} (h : s.Identified u)
    (hr : s.catalog.registerSource? u b draft = some (d, catalog)) :
    { s with catalog }.Identified u ∧ catalog.Declares u d ∧ s.isResolved d.id = false ∧
      d.id ∉ Frame.ids s.stack := by
  obtain ⟨hl, hd, ha⟩ := Catalog.added_of_registerSource? hr
  have hid : d.id = s.catalog.nextId := congrArg Declaration.id hd
  refine ⟨h.withCatalog ha, ⟨hl, ?_⟩, ?_, fun hm => ?_⟩
  · rw [hd]
    exact ha.mem_declarations.2 (.inl rfl)
  · rw [hid, isResolved, h.position?_nextId]
    rfl
  · obtain ⟨f, hf, e⟩ := Frame.mem_ids.1 hm
    exact Nat.ne_of_lt (h.sound.fresh _ (h.declares hf).2) (e.trans hid)

/-- **A move keeps components apart.** -/
theorem Identified.move (h : s.Identified r.types) (hm : r.Move s t) : t.Identified r.types := by
  cases hm with
  | skip hs hd => exact h.tail hs
  | @expand d below hs hd =>
    cases h.top hs with
    | root hc hb =>
      refine (h.tail hs).push (.fresh (Catalog.declares_of_mem h.sound hc) ?_) hd
      simp [hb]
  | @forward f w below c cs n proxy catalog hs hw hf hk ht hp hr =>
    obtain ⟨hi, hd, hu, hm⟩ := h.register hr
    have hc : ({ s with catalog }.commit proxy
        [.proxyParameter f.source.forwardingClaim f.source.id none]).Identified r.types :=
      hi.commit hd hu hm
    exact ⟨hc.sound, hc.declared, hc.distinct, hc.grounded, hc.unresolved⟩
  | @bypass f w below c cs i hs hw hf hk ht hp => exact (h.tail hs).answer rfl _
  | @commit f below hs hb hf =>
    have hg := h.top hs
    exact (h.tail hs).commit (hg.declares h.sound) (h.unresolved _ (by simp [hs])) (hg.not_mem hb)
  | answer hs hb hf he => exact h.answer hs _
  | @await f below c cs d hs hb hf hd =>
    obtain ⟨hc, hp, hfit⟩ := mem_sources_of_mem_declaredMatches hd.declared
    refine h.push ?_ hd.unresolved
    rw [hs]
    exact .awaited hc hp hf hfit
  | supply hs hb hf hn hd hr =>
    obtain ⟨hi, hd, hu, hm⟩ := h.register hr
    exact hi.push (.fresh hd hm) hu
  | extend hr => exact h.withCatalog (Catalog.added_of_register? hr).2
  | nest depth => exact ⟨h.sound, h.declared, h.distinct, h.grounded, h.unresolved⟩

/-- **A component is found at a position exactly if it was finished there.** -/
theorem Identified.position?_iff (h : s.Identified u) :
    s.position? id = some i ↔ ∃ n, s.resolved[i]? = some n ∧ n.source.id = id := by
  refine ⟨exists_of_position?, fun ⟨n, hn, e⟩ => ?_⟩
  obtain ⟨hi, rfl⟩ := List.getElem?_eq_some_iff.1 hn
  refine List.findIdx?_eq_some_iff_getElem.2 ⟨hi, by simpa using e, fun j hj => ?_⟩
  -- An earlier component of the same identity would be a second one.
  have hne := List.pairwise_iff_getElem.1 (List.pairwise_map.1 h.distinct) j i (by omega) hi hj
  simpa [e] using hne

/-! ## Roots -/

/-- The component of the identity is finished, in progress or still to be looked at. -/
def Pursued (s : State) (id : Nat) : Prop :=
  s.isResolved id = true ∨ id ∈ s.stack.map Frame.id

theorem mem_map_id_of_mem_ids (h : id ∈ Frame.ids stack) : id ∈ stack.map Frame.id := by
  obtain ⟨f, hf, rfl⟩ := Frame.mem_ids.1 h
  exact List.mem_map_of_mem hf

theorem mem_map_id_push (s : State) (d : Source) : d.id ∈ (s.push d).stack.map Frame.id :=
  mem_map_id_of_mem_ids (by simp [ids_push])

theorem Pursued.push (h : s.Pursued id) (d : Source) : (s.push d).Pursued id := by
  refine h.imp_right fun h => ?_
  rw [stack_push, List.map_append]
  exact List.mem_append_right _ h

/-- **A move pursues what was pursued before.** -/
theorem Pursued.move (h : s.Pursued id) (hm : r.Move s t) : t.Pursued id := by
  rcases h with h | h
  · exact .inl (hm.grows.isResolved h)
  · cases hm with
    | skip hs hd =>
      rw [hs, List.map_cons] at h
      rcases List.mem_cons.1 h with rfl | h
      · exact .inl hd
      · exact .inr h
    | expand hs hd =>
      rw [hs, List.map_cons] at h
      rcases List.mem_cons.1 h with rfl | h
      · exact .inr (mem_map_id_push _ _)
      · exact Pursued.push (s := { s with stack := _ }) (.inr h) _
    | forward => exact .inr h
    | bypass hs hw hf hk ht hp =>
      rw [hs, List.map_cons] at h
      rcases List.mem_cons.1 h with rfl | h
      · exact .inr (mem_map_id_of_mem_ids hf)
      · exact .inr h
    | commit hs hb hf =>
      rw [hs, List.map_cons] at h
      rcases List.mem_cons.1 h with rfl | h
      · exact .inl (isResolved_iff.2 ⟨_, List.mem_concat_self, rfl⟩)
      · exact .inr h
    | answer hs hb hf he =>
      rw [hs] at h
      exact .inr h
    | await hs hb hf hd => exact Pursued.push (.inr h) _
    | @supply _ _ _ _ _ _ _ catalog hs hb hf hn hd hr =>
      exact Pursued.push (s := { s with catalog }) (.inr h) _
    | extend hr => exact .inr h
    | nest depth => exact .inr h

end State

namespace Resolver

variable {r : Resolver} {drafts : List Draft} {round : Nat} {goal : Option Claim} {s t : State}
  {c : Catalog}

theorem Moves.identified_of (h : Moves r s t) (hi : s.Identified r.types) :
    t.Identified r.types :=
  h.invariant (fun _ _ => State.Identified.move) hi

theorem Moves.identified (h : Moves r (.start c) s) (hc : Declared r drafts c) :
    s.Identified r.types :=
  h.identified_of (State.identified_start hc.sound)

theorem Reachable.identified (h : Reachable r drafts round goal s) : s.Identified r.types := by
  obtain ⟨c, hc, hm⟩ := h.moves
  exact hm.identified hc

/-- A root of the drafts is finished when the round completes. -/
theorem Completes.exists_root {n k : Nat} {d : Draft} (h : r.Completes n drafts round s)
    (hd : drafts[k]? = some d) (hr : d.isRoot = true) (ht : d.isTemplate = false) :
    ∃ (i : Nat) (node : Node), s.resolved[i]? = some node ∧
      node.source.toDeclaration = d.declare k := by
  obtain ⟨c, hc, hm⟩ := h.reachable.moves
  have hi := hm.identified hc
  obtain ⟨x, hx, e⟩ := hc.exists_source hd ht
  have hroot : x ∈ c.roots := List.mem_filter.2 ⟨hx, by simp [e, Draft.declare, hr]⟩
  have hp : (State.start c).Pursued x.id :=
    .inr (List.mem_map.2 ⟨.root x, List.mem_map_of_mem hroot, rfl⟩)
  have hp : s.Pursued x.id := hm.invariant (fun _ _ => State.Pursued.move) hp
  rw [State.Pursued, h.stack] at hp
  obtain ⟨node, hn, he⟩ := State.isResolved_iff.1 (by simpa using hp)
  obtain ⟨i, hn'⟩ := List.mem_iff_getElem?.1 hn
  have hdx : s.catalog.Declares r.types x :=
    hm.grows.catalog.declares (Catalog.declares_of_mem hc.sound hx)
  refine ⟨i, node, hn', ?_⟩
  rw [hi.source_eq hn hdx he, e]

/-- **One component for each declaration, and every root has one.** In every state of every run,
identities tell the finished components apart, are found where they were finished, and belong to
no component in progress; and a plan has a component for each root. -/
theorem one_component_per_declaration (r : Resolver) (drafts : List Draft) (round : Nat) :
    (∀ goal s, Reachable r drafts round goal s →
      (s.resolved.map (·.source.id)).Nodup ∧
      (∀ id i, s.position? id = some i ↔ ∃ n, s.resolved[i]? = some n ∧ n.source.id = id) ∧
      ∀ f, .component f ∈ s.stack → s.position? f.source.id = none) ∧
    ∀ fuel p, r.resolve fuel drafts round = .ok (.resolved p) →
      ∃ s, r.Completes fuel drafts round s ∧ p = s.toPlan round ∧
        ∀ (k : Nat) (d : Draft), drafts[k]? = some d → d.isRoot = true → d.isTemplate = false →
          ∃ (i : Nat) (n : Node), s.resolved[i]? = some n ∧ n.source.toDeclaration = d.declare k ∧
            p.components[i]? = some (s.componentAt i n) := by
  refine ⟨fun goal s hs => ?_, fun fuel p h => ?_⟩
  · have hi := hs.identified
    refine ⟨hi.distinct, fun id i => hi.position?_iff, fun f hf => ?_⟩
    have hu := hi.unresolved f.source.id (Frame.mem_ids.2 ⟨f, hf, rfl⟩)
    rwa [State.isResolved, Option.isSome_eq_false_iff, Option.isNone_iff_eq_none] at hu
  · obtain ⟨s, hs, rfl⟩ := resolve_eq_resolved_iff.1 h
    refine ⟨s, hs, rfl, fun k d hd hr ht => ?_⟩
    obtain ⟨i, n, hn, e⟩ := hs.exists_root hd hr ht
    refine ⟨i, n, hn, e, ?_⟩
    rw [State.getElem?_toPlan, hn, Option.map_some]

theorem one_component_per_declaration_ring : ∃ s p, Reachable ring ringDrafts 0 none s ∧
    ring.resolve 50 ringDrafts 0 = .ok (.resolved p) ∧ (s.resolved.map (·.source.id)).Nodup ∧
      ∃ (i : Nat) (n : Node), s.resolved[i]? = some n ∧
        (∃ d, ringDrafts[0]? = some d ∧ n.source.toDeclaration = d.declare 0) ∧
        p.components[i]? = some (s.componentAt i n) := by
  obtain ⟨p, hp, -⟩ := exists_plan (x := ring.resolve 50 ringDrafts 0) (fun _ => true)
    (by decide +kernel)
  obtain ⟨hreach, hplan⟩ := one_component_per_declaration ring ringDrafts 0
  obtain ⟨s, hs, rfl, hroot⟩ := hplan 50 p hp
  obtain ⟨i, n, hn, e, hc⟩ := hroot 0 _ rfl rfl (by decide)
  exact ⟨s, _, hs.reachable, hp, (hreach none s hs.reachable).1, i, n, hn, ⟨_, rfl, e⟩, hc⟩

end Resolver

end Wiring
