import Wiring.Proofs.Resolution.Provenance
/-!
# The course of a resolution

Moves say what may be done to a state. What is done is said by `Resolver.Turn`: a step of the stack
is made, a branch of a fork begins, or one ends and the resolution goes on outside it. A
`Resolver.Course` is any number of turns, and each run is one (`Resolver.course_of_run`).

When a component is started for a claim, the frame with the claim waits below it. Nothing changes
there before the component is finished, or found to close a cycle
(`Resolver.Occupied.cases_move`).
-/

namespace Wiring

namespace Resolver

/-- What happens next. -/
inductive Turn (r : Resolver) (round : Nat) (s : State) : State → Prop
  /-- A step is made. -/
  | step {n : Nat} {goal : Option Claim} {t : State}
      (h : r.step n round goal s = .ok (.next t) ∨ r.step n round goal s = .ok (.satisfied t)) :
      Turn r round s t
  /-- A branch of a fork begins. -/
  | enter {n : Nat} {goal : Option Claim} {f : Fork} {s' t : State} {draft : Draft} {name : String}
      (h : r.step n round goal s = .ok (.fork f s')) (hd : draft ∈ f.candidates)
      (hb : r.openBranch n s' draft = .ok (name, t)) : Turn r round s t
  /-- A branch of a fork is left, with the state it ended in. -/
  | leave (depth : Nat) : Turn r round s { s with forkDepth := depth }

/-- Any number of turns. -/
abbrev Course (r : Resolver) (round : Nat) : State → State → Prop :=
  Relation.ReflTransGen (r.Turn round)

variable {r : Resolver} {n k round : Nat} {goal : Option Claim} {s t : State} {d : Source}
  {f g : ComponentFrame} {c : Claim} {cs : List Claim} {below : List Frame}

theorem Turn.moves (h : r.Turn round s t) : Moves r s t := by
  cases h with
  | step h =>
    rcases h with h | h
    · exact moves_of_step_next h
    · exact moves_of_step_satisfied h
  | enter h hd hb =>
    obtain ⟨rfl, hf⟩ := forksAt_of_step h
    exact moves_of_openBranch hf hd hb
  | leave depth => exact .single (.nest depth)

/-- What a turn comes to: a move, before which a proxy may be made; the start of an instance that is
declared at a fork; or another depth of forks. -/
theorem Turn.cases_leap (h : r.Turn round s t) :
    Leap r s t ∨
      (∃ d catalog, t = { s with catalog, forkDepth := s.forkDepth + 1 }.push d) ∨
      ∃ depth, t = { s with forkDepth := depth } := by
  cases h with
  | step h => exact .inl (h.elim leap_of_step_next leap_of_step_satisfied)
  | enter h hd hb =>
    obtain ⟨rfl, -⟩ := forksAt_of_step h
    obtain ⟨d, catalog, -, rfl⟩ := exists_of_openBranch hb
    exact .inr (.inl ⟨d, catalog, rfl⟩)
  | leave depth => exact .inr (.inr ⟨depth, rfl⟩)

theorem Course.moves (h : Course r round s t) : Moves r s t := by
  induction h with
  | refl => exact .refl
  | tail _ h ih => exact ih.trans h.moves

/-- A fork takes its course through the branch that is adopted. -/
theorem course_of_adopt {s' : State} {fork : Fork} {found : Branches}
    {runBranch : State → Except Interrupt RunEnd}
    (hp : r.step n round goal s = .ok (.fork fork s'))
    (hrun : ∀ b e, runBranch b = .ok e → ∀ t, e.state? = some t → Course r round b t)
    (he : r.explore n runBranch s' {} fork.candidates = .ok (.explored found))
    (ht : found.settle fork s' = .ok t) : Course r round s t := by
  obtain ⟨draft, hd, name, b, e, x, ho, he, hx, rfl⟩ := exists_branch_of_adopt he ht
  have hbranch : Course r round s x := .head (.enter hp hd ho) (hrun b e he x hx)
  exact hbranch.tail (.leave s'.forkDepth)

/-- **A run that ends in a state takes its course there**, through the branch that is adopted at
each fork. -/
theorem course_of_run {e : RunEnd} (h : r.run round n goal s = .ok e) :
    ∀ t, e.state? = some t → Course r round s t := by
  refine run_induction (motive := fun _ s e => ∀ t, e.state? = some t → Course r round s t)
    ?_ ?_ ?_ ?_ ?_ h
  · rintro n goal s - t ⟨⟩
    exact .refl
  · rintro n goal s t hp t' ⟨⟩
    exact .single (.step (.inr hp))
  · rintro goal s q t ⟨⟩
  · intro n goal s s' e hp ih t ht
    exact .head (.step (.inl hp)) (ih t ht)
  · intro n goal s s' s'' f found e hp hl he hb hs ih t ht
    exact (course_of_adopt hp hb he hs).trans (ih t ht)

/-- **Every state of every run is on the course** from the one in which the drafts are declared. -/
theorem Reachable.course {drafts : List Draft} (h : Reachable r drafts round goal s) :
    ∃ n c, r.declareAll n ∅ drafts = .ok c ∧ Course r round (.start c) s := by
  induction h with
  | start hc hr => exact ⟨_, _, hc, .refl⟩
  | next hs h ih =>
    obtain ⟨n, c, hc, hm⟩ := ih
    exact ⟨n, c, hc, hm.tail (.step (.inl h))⟩
  | satisfied hs h ih =>
    obtain ⟨n, c, hc, hm⟩ := ih
    exact ⟨n, c, hc, hm.tail (.step (.inr h))⟩
  | branch hs h hl hd hb ih =>
    obtain ⟨n, c, hc, hm⟩ := ih
    exact ⟨n, c, hc, hm.tail (.enter h hd hb)⟩
  | adopt hs h hl he ht ih =>
    obtain ⟨n, c, hc, hm⟩ := ih
    exact ⟨n, c, hc, hm.trans (course_of_adopt h (fun _ _ => course_of_run) he ht)⟩

theorem course_of_stepTimes (h : r.stepTimes n round goal k s = some t) : Course r round s t := by
  induction k generalizing s with
  | zero =>
    cases h
    exact .refl
  | succ k ih =>
    unfold stepTimes at h
    split at h
    · next hp => exact .head (.step (.inl hp)) (ih h)
    · cases h

/-! ## What is done in a step -/

/-- A component that closes no cycle is worked on. -/
theorem breakCycle_eq_none (hb : ¬ Frame.ClosesCycle d.id s.stack) :
    r.breakCycle n s d = .ok none := by
  unfold breakCycle
  split
  · next w rest hs =>
    split
    · next c cs hw =>
      have hp : ¬ s.isInProgress d.id = true := fun hp =>
        hb ⟨w, rest, hs, by simp [hw], State.isInProgress_iff.1 hp⟩
      rw [if_neg hp]
    · rfl
  · rfl

/-- What a step does with a claim on one instance. -/
theorem step_eq_advance (hs : s.stack = .component f :: below)
    (hb : ¬ Frame.ClosesCycle f.source.id below) (hf : f.pending = c :: cs) :
    r.step n round goal s = r.advance n round { s with stack := below } f c := by
  unfold step
  rw [hs]
  simp only [breakCycle_eq_none (s := { s with stack := below }) hb, hf, bind, Except.bind]

/-- A component whose claims are all satisfied is finished in the next step. -/
theorem step_eq_commit (hs : s.stack = .component f :: below)
    (hb : ¬ Frame.ClosesCycle f.source.id below) (hf : f.pending = []) :
    r.step n round goal s = .ok
      (if reaches goal f.source then
        .satisfied ({ s with stack := below }.commit f.source f.edges)
      else .next ({ s with stack := below }.commit f.source f.edges)) := by
  unfold step
  rw [hs]
  simp only [breakCycle_eq_none (s := { s with stack := below }) hb, hf, bind, Except.bind]
  rfl

/-- What a step leads to when the next claim of the component on top is decided. -/
def outcome (s : State) (f : ComponentFrame) (below : List Frame) (c : Claim) :
    Decision → Progress
  | .bind e => .next { s with stack := .component (f.answer e) :: below }
  | .build d catalog => .next ({ s with catalog }.push d)
  | .retry catalog => .next { s with catalog }
  | .fork ds => .fork ⟨c, f.source, ds⟩ s
  | .restart request => .restart request

/-- **What is decided for a claim on one instance is done in the next step.** -/
theorem step_of_decide {p : Decision} (hs : s.stack = .component f :: below)
    (hb : ¬ Frame.ClosesCycle f.source.id below) (hf : f.pending = c :: cs)
    (hk : c.kind.isSingle = true)
    (hd : r.decide n round { s with stack := below } f.source c = .ok p) :
    r.step n round goal s = .ok (outcome s f below c p) := by
  obtain ⟨hall, htok⟩ := Bool.and_eq_true_iff.1 hk
  rw [step_eq_advance hs hb hf, advance, if_neg (by simpa using hall), if_neg (by simpa using htok),
    hd]
  simp only [bind, Except.bind, ← hs]
  cases p <;> rfl

/-- A claim on one instance that breaks off the resolution does so in the next step. -/
theorem step_of_decide_error {i : Interrupt} (hs : s.stack = .component f :: below)
    (hb : ¬ Frame.ClosesCycle f.source.id below) (hf : f.pending = c :: cs)
    (hk : c.kind.isSingle = true)
    (hd : r.decide n round { s with stack := below } f.source c = .error i) :
    r.step n round goal s = .error i := by
  obtain ⟨hall, htok⟩ := Bool.and_eq_true_iff.1 hk
  rw [step_eq_advance hs hb hf, advance, if_neg (by simpa using hall), if_neg (by simpa using htok),
    hd]
  rfl

/-- A claim that is to be bound is bound in the next step. -/
theorem step_of_bind {e : Edge} (hs : s.stack = .component f :: below)
    (hb : ¬ Frame.ClosesCycle f.source.id below) (hf : f.pending = c :: cs)
    (hk : c.kind.isSingle = true)
    (hd : r.decide n round { s with stack := below } f.source c = .ok (.bind e)) :
    r.step n round goal s = .ok (.next { s with stack := .component (f.answer e) :: below }) :=
  step_of_decide hs hb hf hk hd

/-- A component that is to be built for a claim is started in the next step. -/
theorem step_of_build {catalog : Catalog} (hs : s.stack = .component f :: below)
    (hb : ¬ Frame.ClosesCycle f.source.id below) (hf : f.pending = c :: cs)
    (hk : c.kind.isSingle = true)
    (hd : r.decide n round { s with stack := below } f.source c = .ok (.build d catalog)) :
    r.step n round goal s = .ok (.next ({ s with catalog }.push d)) :=
  step_of_decide hs hb hf hk hd

/-- A claim that is to be looked up again with what the catalog now has waits for the next step. -/
theorem step_of_retry {catalog : Catalog} (hs : s.stack = .component f :: below)
    (hb : ¬ Frame.ClosesCycle f.source.id below) (hf : f.pending = c :: cs)
    (hk : c.kind.isSingle = true)
    (hd : r.decide n round { s with stack := below } f.source c = .ok (.retry catalog)) :
    r.step n round goal s = .ok (.next { s with catalog }) :=
  step_of_decide hs hb hf hk hd

/-! ## Waiting -/

/-- A component of `d` is in progress on top of the frames, or on top of it what it needs. -/
def Occupied (d : Source) (below : List Frame) (s : State) : Prop :=
  ∃ above g, s.stack = above ++ .component g :: below ∧ g.source = d

/-- What is started is on top of the stack. -/
theorem occupied_push (s : State) (d : Source) : Occupied d s.stack (s.push d) :=
  ⟨Frame.started (s.wrapping d), .start d, by simp [State.stack_push, Frame.started], rfl⟩

theorem Occupied.of_suffix (h : Occupied d below s) (hs : s.stack <:+ t.stack) :
    Occupied d below t := by
  obtain ⟨above, g, e, hg⟩ := h
  obtain ⟨more, e'⟩ := hs
  exact ⟨more ++ above, g, by rw [← e', e, List.append_assoc], hg⟩

theorem Occupied.congr (h : Occupied d below s) (e : t.stack = s.stack) : Occupied d below t :=
  h.of_suffix (e ▸ List.suffix_rfl)

theorem Occupied.push (h : Occupied d below s) (x : Source) : Occupied d below (s.push x) :=
  h.of_suffix (List.suffix_append _ _)

/-- The frame on top is that of the component, or one above it. -/
theorem Occupied.cases_top {frame : Frame} {rest : List Frame} (h : Occupied d below s)
    (hs : s.stack = frame :: rest) :
    (∃ g, frame = .component g ∧ g.source = d ∧ rest = below) ∨
      ∃ above g, rest = above ++ .component g :: below ∧ g.source = d := by
  obtain ⟨above, g, hs', hg⟩ := h
  rw [hs] at hs'
  cases above with
  | nil =>
    obtain ⟨rfl, rfl⟩ := List.cons.inj hs'
    exact .inl ⟨g, rfl, hg, rfl⟩
  | cons a above =>
    obtain ⟨rfl, rfl⟩ := List.cons.inj hs'
    exact .inr ⟨above, g, rfl, hg⟩

/-- **While a component is in progress, nothing changes below it**, until it is finished or taken
from the stack because it closes a cycle with the frame right below. -/
theorem Occupied.cases_move (h : Occupied d below s) (hm : r.Move s t) :
    Occupied d below t ∨
      (∃ g, s.stack = .component g :: below ∧ g.source = d ∧ g.pending = [] ∧
        t = { s with stack := below }.commit d g.edges) ∨
      ∃ w rest c cs i, below = .component w :: rest ∧ w.pending = c :: cs ∧
        d.id ∈ Frame.ids below ∧ s.proxies.lookup (c.type, d.id) = some i ∧
        t = { s with stack := .component (w.answer (.single c ⟨i, false⟩)) :: rest } := by
  cases hm with
  | skip hs hd =>
    rcases h.cases_top hs with ⟨g, hg, -⟩ | ⟨above, g, rfl, hg⟩
    · cases hg
    · exact .inl ⟨above, g, rfl, hg⟩
  | expand hs hd =>
    rcases h.cases_top hs with ⟨g, hg, -⟩ | ⟨above, g, rfl, hg⟩
    · cases hg
    · exact .inl (Occupied.push (s := { s with stack := _ }) ⟨above, g, rfl, hg⟩ _)
  | forward => exact .inl h
  | @bypass f w rest c cs i hs hw hf hk ht hp =>
    rcases h.cases_top hs with ⟨g, hg, rfl, rfl⟩ | ⟨above, g, hrest, hg⟩
    · -- It closes a cycle with the frame right below.
      cases hg
      exact .inr (.inr ⟨w, rest, c, cs, i, rfl, hw, hf, hp, rfl⟩)
    · refine .inl ?_
      cases above with
      | nil =>
        cases hrest
        exact ⟨[], _, rfl, hg⟩
      | cons a above =>
        obtain ⟨rfl, rfl⟩ := List.cons.inj hrest
        exact ⟨_ :: above, g, rfl, hg⟩
  | commit hs hb hf =>
    rcases h.cases_top hs with ⟨g, hg, rfl, rfl⟩ | ⟨above, g, rfl, hg⟩
    · cases hg
      exact .inr (.inl ⟨_, hs, rfl, hf, rfl⟩)
    · exact .inl ⟨above, g, rfl, hg⟩
  | answer hs hb hf he =>
    rcases h.cases_top hs with ⟨g, hg, rfl, rfl⟩ | ⟨above, g, rfl, hg⟩
    · cases hg
      exact .inl ⟨[], _, rfl, rfl⟩
    · exact .inl ⟨_ :: above, g, rfl, hg⟩
  | await hs hb hf hd => exact .inl (h.push _)
  | @supply _ _ _ _ _ _ _ catalog => exact .inl (Occupied.push (s := { s with catalog }) h _)
  | extend hr => exact .inl h
  | nest depth => exact .inl h

/-- What waits with a claim for the component goes on with the claim once it is finished, or with
the answer by a proxy. -/
theorem Occupied.move (h : Occupied d (.component f :: below) s) (hf : f.pending = c :: cs)
    (hm : r.Move s t) :
    Occupied d (.component f :: below) t ∨
      (t.stack = .component f :: below ∧ t.isResolved d.id = true) ∨
      ∃ i, t.stack = .component (f.answer (.single c ⟨i, false⟩)) :: below ∧
        t.proxies.lookup (c.type, d.id) = some i := by
  rcases h.cases_move hm with h | ⟨g, -, -, -, rfl⟩ | ⟨w, rest, c', cs', i, hw, hp, -, hi, rfl⟩
  · exact .inl h
  · exact .inr (.inl ⟨rfl, State.isResolved_iff.2 ⟨_, List.mem_concat_self, rfl⟩⟩)
  · cases hw
    obtain ⟨rfl, -⟩ := List.cons.inj (hp.symm.trans hf)
    exact .inr (.inr ⟨i, rfl, hi⟩)

/-- A component that is not in progress below as well leaves what is below as it was. -/
theorem Occupied.move_of_fresh (h : Occupied d below s) (hd : d.id ∉ Frame.ids below)
    (hm : r.Move s t) :
    Occupied d below t ∨ ∃ g, s.stack = .component g :: below ∧ g.source = d ∧ g.pending = [] ∧
      t = { s with stack := below }.commit d g.edges := by
  rcases h.cases_move hm with h | h | ⟨w, rest, c, cs, i, -, -, hin, -⟩
  · exact .inl h
  · exact .inr h
  · exact absurd hin hd

theorem Occupied.turn (h : Occupied d (.component f :: below) s) (hf : f.pending = c :: cs)
    (ht : r.Turn round s t) :
    Occupied d (.component f :: below) t ∨
      (t.stack = .component f :: below ∧ t.isResolved d.id = true) ∨
      ∃ i, t.stack = .component (f.answer (.single c ⟨i, false⟩)) :: below ∧
        t.proxies.lookup (c.type, d.id) = some i := by
  rcases ht.cases_leap with ⟨s', hs', hm⟩ | ⟨x, catalog, rfl⟩ | ⟨depth, rfl⟩
  · refine Occupied.move ?_ hf hm
    -- Only a proxy may be made first.
    rcases hs' with rfl | ⟨hs', -⟩
    · exact h
    · exact h.congr hs'
  · exact .inl (Occupied.push (s := { s with catalog, forkDepth := s.forkDepth + 1 }) h x)
  · exact .inl h

end Resolver

end Wiring
