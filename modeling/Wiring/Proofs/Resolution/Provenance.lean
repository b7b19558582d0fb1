import Wiring.Proofs.Resolution.Edges
/-!
# Where components and their edges come from

What is on the stack after a move was there before, is a frame from before with one more claim
answered, or is started (`Resolver.Move.arises`). What is finished was finished before, was in
progress with all claims answered, or is a proxy (`Resolver.Move.mem_resolved`). With these two, an
invariant of components is proved by looking at how a component starts and how a claim is answered.

* `State.Tallied`: the edges of a component and its pending claims are the claims of its
  declaration. This holds whatever the origins of the drafts are.
* `State.Kept`: an edge that was made is kept. A broken cycle takes a frame from the stack, but one
  that has no edges (`Frame.Passing`).
-/

namespace Wiring

namespace Resolver

variable {r : Resolver} {s t : State} {f : ComponentFrame} {n : Node} {c : Claim} {e : Edge}

theorem Answers.claim_eq (h : Answers r s c e) : e.claim = c := by
  cases h with
  | finished | declared => exact Edge.claim_single c _
  | absent | every | token => rfl

/-- How a frame came to be on the stack after a move. -/
inductive Arises (r : Resolver) (s t : State) (f : ComponentFrame) : Prop
  /-- It was there before. -/
  | kept (hf : .component f ∈ s.stack) : Arises r s t f
  /-- Its first pending claim was answered. -/
  | answered {g : ComponentFrame} {c : Claim} {cs : List Claim} {e : Edge}
      (hg : .component g ∈ s.stack) (hp : g.pending = c :: cs) (he : Answers r s c e)
      (hf : f = g.answer e) : Arises r s t f
  /-- Its first pending claim was answered by a proxy. -/
  | bypassed {g : ComponentFrame} {c : Claim} {cs : List Claim} {i : Nat}
      (hg : .component g ∈ s.stack) (hp : g.pending = c :: cs) (hk : c.kind.isSingle = true)
      (hf : f = g.answer (.single c ⟨i, false⟩)) : Arises r s t f
  /-- It was started, for itself or as an interceptor of what was. -/
  | started {s' : State} {d x : Source} (ht : t = s'.push d) (hs : s.Grows s')
      (hx : x = d ∨ x ∈ s'.wrapping d) (hf : f = .start x) : Arises r s t f

/-- **What is in progress after a move** arises in one of these ways. -/
theorem Move.arises (h : r.Move s t) (hf : .component f ∈ t.stack) : Arises r s t f := by
  have hpush {s' : State} {d : Source} (ht : t = s'.push d) (hs : s.Grows s')
      (hsub : ∀ g ∈ s'.stack, g ∈ s.stack) (hf : .component f ∈ (s'.push d).stack) :
      Arises r s t f := by
    rcases State.mem_push hf with hf | ⟨x, hx, e⟩
    · exact .kept (hsub _ hf)
    · cases e
      exact .started ht hs hx rfl
  cases h with
  | skip hs hd => exact .kept (by simp [hs, hf])
  | expand hs hd =>
    refine hpush rfl ⟨List.prefix_rfl, .refl _⟩ (fun g hg => ?_) hf
    rw [hs]
    exact List.mem_cons_of_mem _ hg
  | forward => exact .kept hf
  | @bypass g w below c cs i hs hw hg hk ht hp =>
    rcases List.mem_cons.1 hf with e | hf
    · cases e
      exact .bypassed (by simp [hs]) hw hk rfl
    · exact .kept (by simp [hs, hf])
  | commit hs hb hp =>
    refine .kept ?_
    rw [hs]
    exact List.mem_cons_of_mem _ hf
  | @answer g below c cs e hs hb hg he =>
    rcases List.mem_cons.1 hf with e | hf
    · cases e
      exact .answered (by simp [hs]) hg he rfl
    · exact .kept (by simp [hs, hf])
  | await hs hb hg hd => exact hpush rfl ⟨List.prefix_rfl, .refl _⟩ (fun _ => id) hf
  | supply hs hb hg hn hd hr =>
    have ha := (Catalog.added_of_registerSource? hr).2.2
    exact hpush rfl ⟨List.prefix_rfl, ha.extends⟩ (fun _ => id) hf
  | extend => exact .kept hf
  | nest => exact .kept hf

/-- **What is finished after a move** was so before, was in progress and has all its claims
answered, or is a proxy. -/
theorem Move.mem_resolved (h : r.Move s t) (hn : n ∈ t.resolved) :
    n ∈ s.resolved ∨ (∃ f, .component f ∈ s.stack ∧ f.source = n.source ∧ f.edges = n.edges ∧
      f.pending = []) ∨ ∃ d claimed, n.StandsFor r d claimed := by
  cases h with
  | commit hs hb hp =>
    rcases List.mem_append.1 hn with hn | hn
    · exact .inl hn
    · rw [List.mem_singleton.1 hn]
      exact .inr (.inl ⟨_, by simp [hs], rfl, rfl, hp⟩)
  | forward hs hw hf hk ht hp hr =>
    rcases List.mem_append.1 hn with hn | hn
    · exact .inl hn
    · rw [List.mem_singleton.1 hn]
      exact .inr (.inr ⟨_, _, ⟨_, (Catalog.added_of_registerSource? hr).2.1⟩, rfl⟩)
  | _ => exact .inl hn

end Resolver

namespace State

open Resolver

variable {r : Resolver} {s t : State}

/-! ## Claims are kept count of -/

/-- The claims of the edges and those that are pending are the claims of the declaration. -/
structure Tallied (s : State) : Prop where
  /-- A finished component has an edge for each claim, in order. -/
  finished : ∀ n ∈ s.resolved, n.edges.map Edge.claim = n.source.claims
  /-- A component in progress has edges for its first claims. -/
  inProgress : ∀ f, .component f ∈ s.stack → f.edges.map Edge.claim ++ f.pending = f.source.claims

theorem tallied_start (c : Catalog) : (start c).Tallied where
  finished := by simp [start]
  inProgress := by simp [start]

/-- **A move keeps count of claims.** -/
theorem Tallied.move (h : s.Tallied) (hm : r.Move s t) : t.Tallied where
  finished n hn := by
    rcases hm.mem_resolved hn with hn | ⟨f, hf, hs, he, hp⟩ | ⟨d, claimed, hsf⟩
    · exact h.finished n hn
    · simpa [hs, he, hp] using h.inProgress f hf
    · rw [hsf.edges, hsf.claims_eq]
      rfl
  inProgress f hf := by
    -- An edge for the first pending claim takes its place.
    have hanswer {g : ComponentFrame} {c : Claim} {cs : List Claim} {e : Edge}
        (hg : .component g ∈ s.stack) (hp : g.pending = c :: cs) (he : e.claim = c) :
        (g.answer e).edges.map Edge.claim ++ (g.answer e).pending = g.source.claims := by
      rw [← h.inProgress g hg]
      simp [ComponentFrame.answer, hp, he]
    cases hm.arises hf with
    | kept hf => exact h.inProgress f hf
    | answered hg hp he hf => exact hf ▸ hanswer hg hp he.claim_eq
    | bypassed hg hp hk hf => exact hf ▸ hanswer hg hp (Edge.claim_single _ _)
    | started ht hs hx hf =>
      rw [hf]
      rfl

/-! ## Edges are kept -/

end State

/-- A component that is in progress below as well has no edges, and the one right below it is in
progress only there. -/
def Frame.Passing : Frame → List Frame → Prop
  | .root _, _ => True
  | .component f, below => f.source.id ∈ ids below →
    f.edges = [] ∧ ∀ w rest, below = .component w :: rest → w.source.id ∉ ids rest

namespace State

variable {r : Resolver} {s t : State} {id : Nat} {e : Edge}

theorem passing_start (c : Catalog) : Frame.Each Frame.Passing (start c).stack :=
  Frame.each_roots fun _ _ _ _ => trivial

/-- **A move keeps components that are in progress twice without edges.** -/
theorem passing_move (h : Frame.Each Frame.Passing s.stack) (hi : s.Identified r.types)
    (hm : r.Move s t) : Frame.Each Frame.Passing t.stack := by
  -- Interceptors are started only if they are not in progress.
  have hnew (d : Source) (below : List Frame) (hd : d.id ∉ Frame.ids below) :
      Frame.Passing (.component (.start d)) below := fun hm => absurd hm hd
  cases hm with
  | skip hs hd =>
    rw [hs] at h
    exact h.2
  | @expand d below hs hd =>
    have hg := hi.top hs
    rw [hs] at h
    cases hg with
    | root hc hb =>
      exact Frame.Each.push (s := { s with stack := below }) hi.sound h.2
        (hnew d below (by simp [hb])) fun x _ => hnew x
  | forward => exact h
  | @bypass f w below c cs i hs hw hf hk ht hp =>
    rw [hs] at h
    have hn := (h.1 hf).2 w below rfl
    exact ⟨fun hm => absurd hm hn, h.2.2⟩
  | commit hs hb hf =>
    rw [hs] at h
    exact h.2
  | answer hs hb hf he =>
    have hn := (hi.top hs).not_mem hb
    rw [hs] at h
    exact ⟨fun hm => absurd hm hn, h.2⟩
  | await hs hb hf hd =>
    refine Frame.Each.push hi.sound h (fun _ => ⟨rfl, fun w rest e => ?_⟩) fun x _ => hnew x
    have hn := (hi.top hs).not_mem hb
    rw [hs] at e
    cases e
    exact hn
  | @supply f below c cs n draft d catalog hs hb hf hn hd hr =>
    obtain ⟨hi', -, -, hid⟩ := hi.register hr
    exact Frame.Each.push (s := { s with catalog }) hi'.sound h (hnew d _ hid) fun x _ => hnew x
  | extend hr => exact h
  | nest depth => exact h

/-- Some component, finished or in progress, has edges with a property. -/
def Has (s : State) (P : Source → List Edge → Prop) : Prop :=
  (∃ f, .component f ∈ s.stack ∧ P f.source f.edges) ∨ ∃ n ∈ s.resolved, P n.source n.edges

/-- **A move keeps a property of the edges of a component**, if more edges do, and if no component
has it without any. -/
theorem Has.move {P : Source → List Edge → Prop} (h : s.Has P)
    (hnil : ∀ d, ¬ P d []) (hmore : ∀ d es e, P d es → P d (es ++ [e]))
    (hp : Frame.Each Frame.Passing s.stack) (hm : r.Move s t) : t.Has P := by
  rcases h with ⟨f, hf, he⟩ | ⟨n, hn, he⟩
  · cases hm with
    | skip hs hd =>
      rw [hs] at hf
      exact .inl ⟨f, (List.mem_cons.1 hf).resolve_left nofun, he⟩
    | expand hs hd =>
      rw [hs] at hf
      exact .inl ⟨f, List.mem_append_right _ ((List.mem_cons.1 hf).resolve_left nofun), he⟩
    | forward => exact .inl ⟨f, hf, he⟩
    | @bypass g w below c cs i hs hw hg hk ht hl =>
      rw [hs] at hf hp
      rcases List.mem_cons.1 hf with e | hf
      · -- The frame that goes has no edges.
        cases e
        rw [(hp.1 hg).1] at he
        exact absurd he (hnil _)
      · rcases List.mem_cons.1 hf with e | hf
        · cases e
          exact .inl ⟨_, List.mem_cons_self, hmore _ _ _ he⟩
        · exact .inl ⟨f, List.mem_cons_of_mem _ hf, he⟩
    | commit hs hb hg =>
      rw [hs] at hf
      rcases List.mem_cons.1 hf with e | hf
      · cases e
        exact .inr ⟨_, List.mem_concat_self, he⟩
      · exact .inl ⟨f, hf, he⟩
    | answer hs hb hg ha =>
      rw [hs] at hf
      rcases List.mem_cons.1 hf with e | hf
      · cases e
        exact .inl ⟨_, List.mem_cons_self, hmore _ _ _ he⟩
      · exact .inl ⟨f, List.mem_cons_of_mem _ hf, he⟩
    | await | supply => exact .inl ⟨f, List.mem_append_right _ hf, he⟩
    | extend | nest => exact .inl ⟨f, hf, he⟩
  · exact .inr ⟨n, hm.grows.resolved.mem hn, he⟩

/-- The component of the identity has the edge. -/
def Kept (s : State) (id : Nat) (e : Edge) : Prop :=
  (∃ f, .component f ∈ s.stack ∧ f.source.id = id ∧ e ∈ f.edges) ∨
    ∃ n ∈ s.resolved, n.source.id = id ∧ e ∈ n.edges

/-- **A move keeps edges.** -/
theorem Kept.move (h : s.Kept id e) (hp : Frame.Each Frame.Passing s.stack) (hm : r.Move s t) :
    t.Kept id e :=
  Has.move (P := fun d es => d.id = id ∧ e ∈ es) h (fun _ h => by simp at h)
    (fun _ _ _ h => ⟨h.1, List.mem_append_left _ h.2⟩) hp hm

end State

namespace Resolver

variable {r : Resolver} {drafts : List Draft} {s : State} {c₀ : Catalog}

theorem Moves.tallied (hm : Moves r (.start c₀) s) : s.Tallied :=
  hm.invariant (fun _ _ => State.Tallied.move) (State.tallied_start c₀)

theorem Moves.passing (hm : Moves r (.start c₀) s) (hc : Declared r drafts c₀) :
    Frame.Each Frame.Passing s.stack := by
  induction hm with
  | refl => exact State.passing_start c₀
  | tail hm h ih => exact State.passing_move ih (Moves.identified hm hc) h

end Resolver

end Wiring
