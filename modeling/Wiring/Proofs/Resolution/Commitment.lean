import Wiring.Proofs.Resolution.Course
import Wiring.Proofs.Resolution.Rivals
/-!
# A component that is built for a claim

The frame that waits for a component does not remember for what it waits: when the component is
finished, its claim is looked up again (`Resolver.Fate.resumes`).

* `Resolver.Fate.turn`: the frame waits, resumes, and gets an edge to the component or to a proxy
  that stands for it, unless the component does not prevail when the frame resumes.
* `Resolver.pushed_component_is_bound` says that of all courses of a resolution, and that it takes a
  rival for the component not to prevail (`Resolver.pushed_component_is_left_out`).
-/

namespace Wiring

/-! ## The edge that is made -/

namespace State

variable {r : Resolver} {s t : State} {c : Claim} {d : Source} {e : Edge}

/-- What is remembered as a proxy is one, for a declaration of the catalog. -/
def Remembers (r : Resolver) (s : State) : Prop :=
  ∀ x ∈ s.proxies, ∃ n d, s.resolved[x.2]? = some n ∧ s.catalog.Declares r.types d ∧
    d.id = x.1.2 ∧ n.StandsFor r d x.1.1

/-- **A move makes proxies only for what is declared.** -/
theorem Remembers.move (h : s.Remembers r) (hi : s.Identified r.types) (hm : r.Move s t) :
    t.Remembers r := by
  have hold : ∀ x ∈ s.proxies, ∃ n d, t.resolved[x.2]? = some n ∧
      t.catalog.Declares r.types d ∧ d.id = x.1.2 ∧ n.StandsFor r d x.1.1 := by
    intro x hx
    obtain ⟨n, d, hn, hd, h⟩ := h x hx
    exact ⟨n, d, hm.grows.getElem? hn, hm.grows.catalog.declares hd, h⟩
  cases hm with
  | forward hs hw hf hk ht hp hr =>
    obtain ⟨-, e, ha⟩ := Catalog.added_of_registerSource? hr
    intro x hx
    rcases List.mem_cons.1 hx with rfl | hx
    · refine ⟨_, _, List.getElem?_concat_length, ?_, rfl, ⟨_, e⟩, rfl⟩
      exact ha.extends.declares (hi.declares (by simp [hs]))
    · exact hold x hx
  | _ => exact hold

/-- The edge leads to the component of `d`, or to a proxy that stands for it. -/
inductive Meets (r : Resolver) (s : State) (c : Claim) (d : Source) : Edge → Prop
  /-- To the component. -/
  | component {i : Nat} {n : Node} {fit : Fit} (hn : s.resolved[i]? = some n) (hd : n.source = d)
      (hf : d.fit? c = some fit) : Meets r s c d (.single c (fit.target i))
  /-- To a proxy. -/
  | proxy {i : Nat} {n : Node} (hn : s.resolved[i]? = some n) (hs : n.StandsFor r d c.type) :
      Meets r s c d (.single c ⟨i, false⟩)

theorem Meets.mono (h : s.Meets r c d e) (hg : s.Grows t) : t.Meets r c d e := by
  cases h with
  | component hn hd hf => exact .component (hg.getElem? hn) hd hf
  | proxy hn hs => exact .proxy (hg.getElem? hn) hs

end State

namespace Resolver

variable {r : Resolver} {drafts : List Draft} {n round : Nat} {s t z : State} {c : Claim}
  {d : Source} {f : ComponentFrame} {below : List Frame} {c₀ : Catalog}

theorem Moves.remembers (hm : Moves r (.start c₀) s) (hc : Declared r drafts c₀) :
    s.Remembers r := by
  induction hm with
  | refl => exact fun x hx => nomatch hx
  | tail hm h ih => exact ih.move (Moves.identified hm hc) h

/-- Moves keep a property of the edges of a component. -/
theorem Moves.has {P : Source → List Edge → Prop} (hm : Moves r s t) (hs : Moves r (.start c₀) s)
    (hc : Declared r drafts c₀) (hnil : ∀ d, ¬ P d [])
    (hmore : ∀ d es e, P d es → P d (es ++ [e])) (h : s.Has P) : t.Has P := by
  induction hm with
  | refl => exact h
  | tail hm h ih => exact ih.move hnil hmore (Moves.passing (hs.trans hm) hc) h

/-- The frame on top is about to wait for the component of `d`: its next claim is on one instance,
which is decided to be that component. -/
structure Asks (r : Resolver) (n round : Nat) (s : State) (f : ComponentFrame)
    (below : List Frame) (c : Claim) (d : Source) (catalog : Catalog) : Prop where
  /-- It is on top. -/
  stack : s.stack = .component f :: below
  /-- It closes no cycle itself. -/
  straight : ¬ Frame.ClosesCycle f.source.id below
  /-- The claim is next. -/
  pending : ∃ cs, f.pending = c :: cs
  /-- It is on one instance. -/
  single : c.kind.isSingle = true
  /-- The component is to be built for it. -/
  decided : r.decide n round { s with stack := below } f.source c = .ok (.build d catalog)

/-- The frame can wait for the component of `d`, which satisfies its next claim. -/
structure Expects (f : ComponentFrame) (below : List Frame) (c : Claim) (d : Source) : Prop where
  /-- The frame closes no cycle itself. -/
  straight : ¬ Frame.ClosesCycle f.source.id below
  /-- The claim is next. -/
  pending : ∃ cs, f.pending = c :: cs
  /-- It is on one instance. -/
  single : c.kind.isSingle = true
  /-- The component satisfies it. -/
  fits : d.Fits c

theorem Asks.expects {catalog : Catalog} (h : Asks r n round s f below c d catalog) :
    Expects f below c d :=
  ⟨h.straight, h.pending, h.single, fits_of_decide h.single h.decided⟩

/-- The frame of `f` is on top again, and the component of `d` is finished. -/
structure Resumed (f : ComponentFrame) (below : List Frame) (d : Source) (s : State) : Prop where
  /-- It is on top. -/
  stack : s.stack = .component f :: below
  /-- The component is finished. -/
  resolved : s.isResolved d.id = true

/-- The component of the frame, in progress or finished, has an edge that leads to `d` right after
those of the frame. -/
def Binds (r : Resolver) (f : ComponentFrame) (c : Claim) (d : Source) (s : State) : Prop :=
  ∃ e, s.Meets r c d e ∧ s.Has fun x es => x = f.source ∧ f.edges ++ [e] <+: es

/-- On the course from `t` to `z` the frame was resumed, and the component did not prevail. -/
def Loses (r : Resolver) (round : Nat) (f : ComponentFrame) (below : List Frame) (c : Claim)
    (d : Source) (t z : State) : Prop :=
  ∃ y, Course r round t y ∧ Course r round y z ∧ Resumed f below d y ∧ ¬ y.Prevails c d

/-- What has become of the claim on the course from `t` to `z`. -/
inductive Fate (r : Resolver) (round : Nat) (f : ComponentFrame) (below : List Frame) (c : Claim)
    (d : Source) (t z : State) : Prop
  /-- The component is in progress, and the frame waits for it. -/
  | waits (h : Occupied d (.component f :: below) z) : Fate r round f below c d t z
  /-- The component is finished, and the claim is next again. -/
  | resumes (h : Resumed f below d z) : Fate r round f below c d t z
  /-- There is an edge to the component, or to a proxy that stands for it. -/
  | binds (h : Binds r f c d z) : Fate r round f below c d t z
  /-- When the claim was next again, the component did not prevail. -/
  | loses (h : Loses r round f below c d t z) : Fate r round f below c d t z

/-- An edge to the component is made when the frame is answered. -/
theorem binds_answer {e : Edge} (he : s.Meets r c d e)
    (hs : s.stack = .component (f.answer e) :: below) : Binds r f c d s :=
  ⟨e, he, .inl ⟨f.answer e, by simp [hs], rfl, List.prefix_rfl⟩⟩

/-- An edge to the component is kept. -/
theorem Binds.moves (h : Binds r f c d s) (hs : Moves r (.start c₀) s) (hc : Declared r drafts c₀)
    (hm : Moves r s t) : Binds r f c d t := by
  obtain ⟨e, he, hh⟩ := h
  refine ⟨e, he.mono hm.grows, Moves.has hm hs hc (fun x hx => ?_) (fun x es e' hx => ?_) hh⟩
  · have := hx.2.length_le
    simp at this
  · exact ⟨hx.1, hx.2.trans (List.prefix_append _ _)⟩

/-- What is resumed is bound in the next step, if the component prevails. -/
theorem Resumed.step (h : Resumed f below d s) (hw : Expects f below c d) (hp : s.Prevails c d)
    (hi : s.Identified r.types) (hx : s.Indexed) (hd : s.catalog.Declares r.types d) :
    ∃ e, s.Meets r c d e ∧ ∀ n round goal, r.step n round goal s =
      .ok (.next { s with stack := .component (f.answer e) :: below }) := by
  obtain ⟨cs, hf⟩ := hw.pending
  obtain ⟨i, hpos⟩ := Option.isSome_iff_exists.1 h.resolved
  obtain ⟨fit, hfit⟩ := Option.isSome_iff_exists.1 hw.fits
  obtain ⟨m, hn, hm⟩ := State.exists_node_of_position? hi hd hpos
  refine ⟨_, .component hn hm hfit, fun n round goal => ?_⟩
  refine step_of_bind h.stack hw.straight hf hw.single ?_
  exact (decide_eq_bind_iff hi hx hw.single hd hpos hfit below).2 hp

/-- **A turn keeps the fate of a claim.** -/
theorem Fate.turn (h : Fate r round f below c d t s) (hw : Expects f below c d)
    (ht : Course r round t s) (hs : Moves r (.start c₀) s) (hc : Declared r drafts c₀)
    (hd : s.catalog.Declares r.types d) (hz : r.Turn round s z) :
    Fate r round f below c d t z := by
  have hi := Moves.identified hs hc
  cases h with
  | waits h =>
    obtain ⟨cs, hf⟩ := hw.pending
    rcases h.turn hf hz with h | ⟨hstack, hr⟩ | ⟨i, hstack, hl⟩
    · exact .waits h
    · exact .resumes ⟨hstack, hr⟩
    · -- The proxy that is remembered stands for the component.
      have hm : Moves r (.start c₀) z := hs.trans hz.moves
      obtain ⟨n, d', hn, hd', hid, hsf⟩ := Moves.remembers hm hc _ (State.mem_of_lookup hl)
      obtain rfl : d' = d :=
        hd'.ext (Moves.identified hm hc).sound (hz.moves.grows.catalog.declares hd) hid
      exact .binds (binds_answer (.proxy hn hsf) hstack)
  | resumes h =>
    by_cases hp : s.Prevails c d
    · obtain ⟨e, he, hstep⟩ := h.step hw hp hi (Moves.indexed hs hc) hd
      cases hz with
      | step hp =>
        rcases hp with hp | hp
        · rw [hstep] at hp
          cases hp
          exact .binds (binds_answer (he.mono ⟨List.prefix_rfl, .refl _⟩) rfl)
        · rw [hstep] at hp
          cases hp
      | enter hp =>
        rw [hstep] at hp
        cases hp
      | leave depth => exact .resumes ⟨h.stack, h.resolved⟩
    · exact .loses ⟨s, ht, .single hz, h, hp⟩
  | binds h => exact .binds (h.moves hs hc hz.moves)
  | loses h =>
    obtain ⟨y, hy, hs', h, hp⟩ := h
    exact .loses ⟨y, hy, hs'.tail hz, h, hp⟩

/-- **The fate of a claim is known on each course.** -/
theorem Course.fate (hz : Course r round t z) (hw : Expects f below c d)
    (ht : Occupied d (.component f :: below) t) (hm : Moves r (.start c₀) t)
    (hc : Declared r drafts c₀) (hd : t.catalog.Declares r.types d) :
    Fate r round f below c d t z := by
  induction hz with
  | refl => exact .waits ht
  | tail hz h ih =>
    have hm' := Course.moves hz
    exact ih.turn hw hz (hm.trans hm') hc (hm'.grows.catalog.declares hd) h

/-- In the end nothing waits. -/
theorem Fate.of_finished (h : Fate r round f below c d t z) (hz : z.stack = []) :
    (∃ m ∈ z.resolved, m.source = f.source ∧
      ∃ e, f.edges ++ [e] <+: m.edges ∧ z.Meets r c d e) ∨
    Loses r round f below c d t z := by
  cases h with
  | waits h =>
    obtain ⟨above, g, hs, -⟩ := h
    simp [hz] at hs
  | resumes h =>
    have := h.stack
    simp [hz] at this
  | binds h =>
    obtain ⟨e, he, ⟨g, hg, -⟩ | ⟨m, hm, hs, hp⟩⟩ := h
    · simp [hz] at hg
    · exact .inl ⟨m, hm, hs, e, hp, he⟩
  | loses h => exact .inr h

/-- **What is built for a claim is bound to it, if it prevails.** On each course, and so in each run
(`course_of_run`), the frame waits for the component and is resumed, or the component closes a cycle
with it. When it is resumed, its claim is bound to the component exactly if that prevails, which it
does unless there is a rival, or the component is one of a template again. In the end there is an
edge to the component or its proxy, unless the component did not prevail when the frame was
resumed. -/
theorem pushed_component_is_bound (r : Resolver) (drafts : List Draft) (round : Nat)
    (goal : Option Claim) (s : State) (hs : Reachable r drafts round goal s) (n : Nat)
    (f : ComponentFrame) (below : List Frame) (c : Claim) (d : Source) (catalog : Catalog)
    (h : Asks r n round s f below c d catalog) :
    r.step n round goal s = .ok (.next ({ s with catalog }.push d)) ∧
    (∀ y, Course r round ({ s with catalog }.push d) y → Resumed f below d y →
      (∃ i fit, y.position? d.id = some i ∧ d.fit? c = some fit ∧ ∀ fuel q,
        r.decide fuel round { y with stack := below } q c =
          .ok (.bind (.single c (fit.target i))) ↔ y.Prevails c d) ∧
      (d.isTemplate = false → (∀ x, ¬ ({ s with catalog }.push d).Rivals y c d x) →
        y.Prevails c d)) ∧
    ∀ z, Course r round ({ s with catalog }.push d) z →
      Fate r round f below c d ({ s with catalog }.push d) z ∧
      (z.stack = [] →
        (∃ m ∈ z.resolved, m.source = f.source ∧
          ∃ e, f.edges ++ [e] <+: m.edges ∧ z.Meets r c d e) ∨
        Loses r round f below c d ({ s with catalog }.push d) z) := by
  obtain ⟨c₀, hc, hm⟩ := hs.moves
  obtain ⟨cs, hf⟩ := h.pending
  have hstep : r.step n round goal s = .ok (.next ({ s with catalog }.push d)) :=
    step_of_build h.stack h.straight hf h.single h.decided
  have hmt : Moves r (.start c₀) ({ s with catalog }.push d) := hm.trans (moves_of_step_next hstep)
  have hocc : Occupied d (.component f :: below) ({ s with catalog }.push d) :=
    h.stack ▸ occupied_push { s with catalog } d
  have hd : catalog.Declares r.types d := by
    obtain ⟨above, g, hg, rfl⟩ := hocc
    exact (Moves.identified hmt hc).declares (by simp [hg])
  refine ⟨hstep, fun y hy hr => ?_, fun z hz => ?_⟩
  · have hmy := Course.moves hy
    have hiy := Moves.identified (hmt.trans hmy) hc
    have hxy := Moves.indexed (hmt.trans hmy) hc
    obtain ⟨i, hpos⟩ := Option.isSome_iff_exists.1 hr.resolved
    obtain ⟨fit, hf⟩ := Option.isSome_iff_exists.1 h.expects.fits
    refine ⟨⟨i, fit, hpos, hf, fun fuel q => ?_⟩, fun ht hn => ?_⟩
    · exact decide_eq_bind_iff hiy hxy h.single (hmy.grows.catalog.declares hd) hpos hf below
    · have hchosen := chosen_of_decide (Moves.identified hm hc) (Moves.indexed hm hc) h.single ht
        h.decided
      have halone : State.Unrivalled r.types ({ s with catalog }.push d) y c d :=
        ⟨hchosen.push d, hmy.grows, Moves.identified hmt hc, hiy, hxy, hn⟩
      exact halone.prevails hpos hf
  · have hfate := Course.fate hz h.expects hocc hmt hc hd
    exact ⟨hfate, hfate.of_finished⟩

/-! ## Stores and boxes -/

/-- Whether the frame on top is about to wait for a component, of which something holds. -/
def asksFor (r : Resolver) (n round : Nat) (s : State)
    (P : ComponentFrame → List Frame → Claim → Source → Catalog → Bool) : Bool :=
  match s.stack with
  | .component f :: below =>
    match f.pending, r.breakCycle n { s with stack := below } f.source with
    | c :: _, .ok none =>
      match r.decide n round { s with stack := below } f.source c with
      | .ok (.build d catalog) => c.kind.isSingle && P f below c d catalog
      | _ => false
    | _, _ => false
  | _ => false

theorem exists_asks {P : ComponentFrame → List Frame → Claim → Source → Catalog → Bool}
    (h : r.asksFor n round s P = true) :
    ∃ f below c d catalog, Asks r n round s f below c d catalog ∧ P f below c d catalog = true := by
  unfold asksFor at h
  split at h
  · next f below hs =>
    split at h
    · next c cs hf hb =>
      split at h
      · next d catalog hd =>
        obtain ⟨hk, hP⟩ := Bool.and_eq_true_iff.1 h
        exact ⟨f, below, c, d, catalog,
          ⟨hs, not_closesCycle_of_breakCycle hb, ⟨cs, hf⟩, hk, hd⟩, hP⟩
      · cases h
    · cases h
  · cases h

/-- Whether the frame resumes after some steps, and nothing competes with the component. -/
def resumesAlone (r : Resolver) (n round k : Nat) (s : State) (f : ComponentFrame)
    (below : List Frame) (c : Claim) (d : Source) (catalog : Catalog) : Bool :=
  (r.stepTimes n round none k ({ s with catalog }.push d)).any fun y =>
    Decidable.decide (d.isTemplate = false ∧ y.stack = .component f :: below ∧
      y.isResolved d.id = true ∧ y.candidates c = [d])

/-- Whether the resolution ends after some steps, and the claim is bound to the first component,
which is another one. -/
def endsElsewhere (r : Resolver) (n round k : Nat) (s : State) (f : ComponentFrame)
    (_ : List Frame) (c : Claim) (d : Source) (catalog : Catalog) : Bool :=
  (r.stepTimes n round none k ({ s with catalog }.push d)).any fun z =>
    Decidable.decide (z.stack = [] ∧ (∃ m ∈ z.resolved, m.source = f.source) ∧
      (∀ m ∈ z.resolved, m.source = f.source → m.edges = f.edges ++ [.single c ⟨0, false⟩]) ∧
      ∀ m ∈ z.resolved.head?, m.source ≠ d ∧ m.source.isProxy = false)

/-- The application waits for the store in memory, which nothing competes with, and its claim is
bound to it. -/
theorem pushed_component_is_bound_stores : ∃ s f below c d catalog y target,
    Reachable stores (storeDrafts [memoryClaim]) 0 none s ∧
    Asks stores 50 0 s f below c d catalog ∧
    Course stores 0 ({ s with catalog }.push d) y ∧ Resumed f below d y ∧
    stores.decide 50 0 { y with stack := below } f.source c = .ok (.bind (.single c target)) := by
  obtain ⟨s, hs, h⟩ := exists_reachable stores 50 (storeDrafts [memoryClaim]) 0 1
    (fun s => stores.asksFor 50 0 s (stores.resumesAlone 50 0 1 s)) (by decide +kernel)
  obtain ⟨f, below, c, d, catalog, ha, h⟩ := exists_asks h
  obtain ⟨y, hy, h⟩ := (Option.any_eq_true _ _).1 h
  obtain ⟨ht, hstack, hr, hone⟩ := of_decide_eq_true h
  have hcourse := course_of_stepTimes hy
  obtain ⟨-, hresume, -⟩ := pushed_component_is_bound stores _ 0 none s hs 50 f below c d catalog ha
  obtain ⟨⟨i, fit, -, -, hbind⟩, hprevails⟩ := hresume y hcourse ⟨hstack, hr⟩
  refine ⟨s, f, below, c, d, catalog, y, fit.target i, hs, ha, hcourse, ⟨hstack, hr⟩, ?_⟩
  refine (hbind 50 f.source).2 (hprevails ht fun x hx => hx.ne ?_)
  have := hx.mem
  rwa [hone, List.mem_singleton] at this

/-- The application waits for the default store. But the box that this needs is a store as well, and
no default, so that the claim of the application is bound to the box. -/
theorem pushed_component_is_left_out : ∃ s f below c d catalog z,
    Reachable boxed boxedDrafts 0 none s ∧ Asks boxed 50 0 s f below c d catalog ∧
    Course boxed 0 ({ s with catalog }.push d) z ∧ z.stack = [] ∧
    (∃ m ∈ z.resolved, m.source = f.source) ∧
    ∀ m ∈ z.resolved, m.source = f.source →
      ∀ e, f.edges ++ [e] <+: m.edges → ¬ z.Meets boxed c d e := by
  obtain ⟨s, hs, h⟩ := exists_reachable boxed 50 boxedDrafts 0 1
    (fun s => boxed.asksFor 50 0 s (boxed.endsElsewhere 50 0 6 s)) (by decide +kernel)
  obtain ⟨f, below, c, d, catalog, ha, h⟩ := exists_asks h
  obtain ⟨z, hz, h⟩ := (Option.any_eq_true _ _).1 h
  obtain ⟨hstack, hf, hedges, hbox⟩ := of_decide_eq_true h
  refine ⟨s, f, below, c, d, catalog, z, hs, ha, course_of_stepTimes hz, hstack, hf,
    fun m hm hmf e he hmeets => ?_⟩
  rw [hedges m hm hmf, List.prefix_append_right_inj] at he
  have he : e = .single c ⟨0, false⟩ := by simpa using he
  -- The edge leads to the first component.
  have hfirst {i : Nat} {n : Node} (hn : z.resolved[i]? = some n) (hi : i = 0) :
      n.source ≠ d ∧ n.source.isProxy = false := by
    rw [hi, ← List.head?_eq_getElem?] at hn
    exact hbox n hn
  cases hmeets with
  | component hn hd hfit => exact (hfirst hn (Edge.index_eq_of_single he)).1 hd
  | proxy hn hsf =>
    have := (hfirst hn (Edge.index_eq_of_single he)).2
    simp [hsf.isProxy] at this

end Resolver

end Wiring
