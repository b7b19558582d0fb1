import Wiring.Proofs.Resolution.Course
import Wiring.Proofs.Resolution.Interception
/-!
# Which interceptors come before a component

Interceptors are put on the stack above the component with which they are started, so they are
finished before it. But not all that are bound to a component in the end were started with it. One
that is in progress when the component is started needs the component, and so is finished after it;
and one that is declared only later is bound as well, since interceptors are bound when everything
is finished (`Resolver.interceptor_after_component`).

* `Resolver.Starts`: where a component is started for its own sake or for a claim.
* `Resolver.begun_of_course`: each component is started so, or as an interceptor of one that is.
* `Resolver.interceptors_precede`: of the interceptors that are declared when a component is
  started, those come before it that are not in progress then.
-/

namespace Wiring

namespace Resolver

variable {r : Resolver} {drafts : List Draft} {s t y z : State} {d x : Source} {n m : Node}
  {f g : ComponentFrame} {below : List Frame} {c₀ : Catalog} {i j round : Nat}

/-! ## Starts -/

/-- On the course from the catalog `c₀` to the state `z`, the component of `d` is started in `y`:
for a claim of the component on top of the stack, or as a root, whose frame is taken away. -/
structure Starts (r : Resolver) (round : Nat) (c₀ : Catalog) (z y : State) (d : Source) :
    Prop where
  /-- It is started in a turn. -/
  turn : ∃ s, Course r round (.start c₀) s ∧ r.Turn round s (y.push d) ∧
    (y.stack = s.stack ∨ s.stack = .root d :: y.stack)
  /-- From there the course leads on. -/
  onward : Course r round (y.push d) z

theorem Starts.trans (h : Starts r round c₀ s y d) (hz : Course r round s z) :
    Starts r round c₀ z y d :=
  ⟨h.turn, h.onward.trans hz⟩

theorem Starts.moves (h : Starts r round c₀ z y d) : Moves r (.start c₀) (y.push d) := by
  obtain ⟨s, hs, ht, -⟩ := h.turn
  exact (Course.moves hs).trans ht.moves

/-- A component is started, if it is not in progress already, or it is put on the stack as an
interceptor of one that is started. -/
def Begun (r : Resolver) (round : Nat) (c₀ : Catalog) (s : State) (x : Source) : Prop :=
  ∃ y d, Starts r round c₀ s y d ∧ (x = d ∧ d.id ∉ Frame.ids y.stack ∨ x ∈ y.wrapping d)

theorem Begun.trans (h : Begun r round c₀ s x) (hz : Course r round s z) :
    Begun r round c₀ z x := by
  obtain ⟨y, d, hs, hx⟩ := h
  exact ⟨y, d, hs.trans hz, hx⟩

/-- From the first state to the second, a component is started. -/
def Launches (s t : State) : Prop :=
  ∃ (y : State) (d : Source), t = y.push d ∧ (y.stack = s.stack ∨ s.stack = .root d :: y.stack)

/-- What is in progress in the second state is so in the first. -/
def Retains (s t : State) : Prop :=
  ∀ f, .component f ∈ t.stack → ∃ g, .component g ∈ s.stack ∧ g.source = f.source

/-- A move starts a component, or puts none on the stack. -/
theorem Move.launches_or_retains (h : r.Move s t) : Launches s t ∨ Retains s t := by
  -- The frame of a component whose claim is answered is still its frame.
  have hanswer {w : ComponentFrame} {below : List Frame} {e : Edge} (hw : .component w ∈ s.stack)
      (hb : ∀ f, .component f ∈ below → .component f ∈ s.stack) :
      Retains s { s with stack := .component (w.answer e) :: below } := by
    intro f hf
    rcases List.mem_cons.1 hf with hf | hf
    · cases hf
      exact ⟨w, hw, rfl⟩
    · exact ⟨f, hb f hf, rfl⟩
  cases h with
  | skip hs hd => exact .inr fun f hf => ⟨f, hs ▸ List.mem_cons_of_mem _ hf, rfl⟩
  | @expand d below hs hd => exact .inl ⟨{ s with stack := below }, d, rfl, .inr hs⟩
  | forward => exact .inr fun f hf => ⟨f, hf, rfl⟩
  | bypass hs hw hf hk ht hp =>
    refine .inr (hanswer (by simp [hs]) fun g hg => ?_)
    simp [hs, hg]
  | commit hs hb hf => exact .inr fun g hg => ⟨g, hs ▸ List.mem_cons_of_mem _ hg, rfl⟩
  | answer hs hb hf he =>
    refine .inr (hanswer (by simp [hs]) fun g hg => ?_)
    simp [hs, hg]
  | await hs hb hf hd => exact .inl ⟨s, _, rfl, .inl rfl⟩
  | @supply f below c cs n draft d catalog => exact .inl ⟨{ s with catalog }, d, rfl, .inl rfl⟩
  | extend => exact .inr fun f hf => ⟨f, hf, rfl⟩
  | nest => exact .inr fun f hf => ⟨f, hf, rfl⟩

/-- **A turn starts a component, or puts none on the stack.** -/
theorem Turn.launches_or_retains (h : r.Turn round s t) : Launches s t ∨ Retains s t := by
  rcases h.cases_leap with ⟨s', hs', hm⟩ | ⟨x, catalog, rfl⟩ | ⟨depth, rfl⟩
  · have hstack : s'.stack = s.stack := hs'.elim (congrArg _) And.left
    rw [Launches, Retains, ← hstack]
    exact hm.launches_or_retains
  · exact .inl ⟨{ s with catalog, forkDepth := s.forkDepth + 1 }, x, rfl, .inl rfl⟩
  · exact .inr fun f hf => ⟨f, hf, rfl⟩

/-- What is finished after a turn was so before, or in progress, or is a proxy. -/
theorem Turn.mem_resolved (h : r.Turn round s t) (hn : n ∈ t.resolved) :
    n ∈ s.resolved ∨ (∃ f, .component f ∈ s.stack ∧ f.source = n.source) ∨
      n.source.isProxy = true := by
  have hmove {s t : State} (hm : r.Move s t) (hn : n ∈ t.resolved) : n ∈ s.resolved ∨
      (∃ f, .component f ∈ s.stack ∧ f.source = n.source) ∨ n.source.isProxy = true := by
    rcases hm.mem_resolved hn with hn | ⟨f, hf, e, -⟩ | ⟨d, claimed, hsf⟩
    · exact .inl hn
    · exact .inr (.inl ⟨f, hf, e⟩)
    · exact .inr (.inr hsf.isProxy)
  rcases h.cases_leap with ⟨s', rfl | ⟨hstack, hs'⟩, hm⟩ | ⟨x, catalog, rfl⟩ | ⟨depth, rfl⟩
  · exact hmove hm hn
  · rcases hmove hm hn with hn | hn
    · exact hmove hs' hn
    · rw [hstack] at hn
      exact .inr hn
  · exact .inl hn
  · exact .inl hn

/-- **Every component is started**, for its own sake or for a claim, or as an interceptor of one
that is. -/
theorem begun_of_course (hc : Declared r drafts c₀) (h : Course r round (.start c₀) s) :
    (∀ f, .component f ∈ s.stack → Begun r round c₀ s f.source) ∧
      ∀ n ∈ s.resolved, n.source.isProxy = false → Begun r round c₀ s n.source := by
  induction h with
  | refl => exact ⟨fun f hf => by simp [State.start] at hf, by simp [State.start]⟩
  | @tail s t hs h ih =>
    have hi := Moves.identified (Course.moves (hs.tail h)) hc
    -- What was begun before still is.
    have hkept {x : Source} (hx : Begun r round c₀ s x) : Begun r round c₀ t x :=
      hx.trans (.single h)
    constructor
    · intro f hf
      rcases h.launches_or_retains with ⟨y, d, rfl, hy⟩ | hr
      · have hsub {g : ComponentFrame} (hg : .component g ∈ y.stack) : .component g ∈ s.stack := by
          rcases hy with hy | hy
          · exact hy ▸ hg
          · exact hy ▸ List.mem_cons_of_mem _ hg
        have hstart : Starts r round c₀ (y.push d) y d := ⟨⟨s, hs, h, hy⟩, .refl⟩
        rcases State.mem_push hf with hf' | ⟨x, rfl | hx, e⟩
        · exact hkept (ih.1 f (hsub hf'))
        · cases e
          by_cases hin : x.id ∈ Frame.ids y.stack
          · -- It is in progress already, and was begun then.
            obtain ⟨g, hg, e⟩ := Frame.mem_ids.1 hin
            have hgs : .component g ∈ (y.push x).stack := List.mem_append_right _ hg
            have e' : g.source = x := (hi.declares hgs).ext hi.sound (hi.declares hf) e
            exact hkept (e' ▸ ih.1 g (hsub hg))
          · exact ⟨y, x, hstart, .inl ⟨rfl, hin⟩⟩
        · cases e
          exact ⟨y, d, hstart, .inr hx⟩
      · obtain ⟨g, hg, e⟩ := hr f hf
        exact hkept (e ▸ ih.1 g hg)
    · intro n hn hp
      rcases h.mem_resolved hn with hn | ⟨g, hg, e⟩ | hproxy
      · exact hkept (ih.2 n hn hp)
      · exact hkept (e ▸ ih.1 g hg)
      · rw [hproxy] at hp
        cases hp

/-! ## The order of interceptors -/

/-- What is started while it is not in progress is finished above all that was on the stack. -/
theorem Occupied.exists_commit (h : Occupied d below s) (hd : d.id ∉ Frame.ids below)
    (hz : Moves r s z) (hend : z.stack = []) :
    ∃ t g, Moves r s t ∧ t.stack = .component g :: below ∧ g.source = d ∧
      Moves r ({ t with stack := below }.commit d g.edges) z := by
  induction hz using Relation.ReflTransGen.head_induction_on with
  | refl =>
    obtain ⟨above, g, hs, -⟩ := h
    simp [hend] at hs
  | @head s t hm hz ih =>
    rcases h.move_of_fresh hd hm with h | ⟨g, hs, rfl, -, rfl⟩
    · obtain ⟨t', g, ht, h⟩ := ih h
      exact ⟨t', g, .head hm ht, h⟩
    · exact ⟨s, g, .refl, hs, rfl, hz⟩

/-- A component stands among the first ones exactly if it was finished with them. -/
theorem lt_length_iff {u : Universe} (hg : s.Grows t) (hi : t.Identified u)
    (hm : t.resolved[i]? = some m) :
    i < s.resolved.length ↔ s.isResolved m.source.id = true := by
  constructor
  · intro hlt
    have hs := hg.getElem? (List.getElem?_eq_getElem hlt)
    obtain rfl := Option.some.inj (hm.symm.trans hs)
    exact State.isResolved_iff.2 ⟨_, List.getElem_mem hlt, rfl⟩
  · intro hr
    obtain ⟨m', hm', e⟩ := State.isResolved_iff.1 hr
    obtain ⟨k, hk, rfl⟩ := List.getElem_of_mem hm'
    have hpos := hi.position?_iff.2 ⟨_, hg.getElem? (List.getElem?_eq_getElem hk), e⟩
    rw [hi.position?_iff.2 ⟨m, hm, rfl⟩] at hpos
    exact Option.some.inj hpos ▸ hk

/-- **Of the interceptors that are declared when a component is started, those come before it that
are not in progress then.** -/
theorem lt_iff_of_starts (hc : Declared r drafts c₀) (h : Starts r round c₀ z y n.source)
    (hend : z.stack = []) (hnew : n.source.id ∉ Frame.ids y.stack) (hn : z.resolved[j]? = some n)
    (hi : i ∈ z.interceptorsOf j n) (hm : z.resolved[i]? = some m)
    (hdecl : m.source ∈ y.catalog.sources) :
    i < j ↔ m.source.id ∉ Frame.ids y.stack := by
  have hz : Moves r (y.push n.source) z := Course.moves h.onward
  obtain ⟨t, g, ht, hs, hg, hend'⟩ := (occupied_push y n.source).exists_commit hnew hz hend
  have hit := Moves.identified (h.moves.trans ht) hc
  have hiz := Moves.identified (h.moves.trans hz) hc
  have hcommit := (State.grows_commit { t with stack := y.stack } n.source g.edges).trans
    hend'.grows
  have hgrow : t.Grows z := ⟨hcommit.resolved, hcommit.catalog⟩
  obtain ⟨-, hne, m', hm', hx, -⟩ := (State.mem_interceptorsOf hiz hn).1 hi
  obtain rfl := Option.some.inj (hm.symm.trans hm')
  have hid : m.source.id ≠ n.source.id := fun e => hne <| Option.some.inj <|
    (hiz.position?_iff.2 ⟨m, hm, e⟩).symm.trans (hiz.position?_iff.2 ⟨n, hn, rfl⟩)
  -- The component is finished right after all that is finished in `t`.
  have hj : t.resolved.length = j := by
    have hlast : z.resolved[t.resolved.length]? = some ⟨n.source, g.edges⟩ :=
      hend'.grows.getElem? List.getElem?_concat_length
    exact Option.some.inj <|
      (hiz.position?_iff.2 ⟨_, hlast, rfl⟩).symm.trans (hiz.position?_iff.2 ⟨n, hn, rfl⟩)
  rw [← hj, lt_length_iff hgrow hiz hm]
  constructor
  · -- What is in progress below is not finished.
    intro hr hin
    have hu := hit.unresolved m.source.id (by rw [hs]; exact List.mem_cons_of_mem _ hin)
    rw [hr] at hu
    cases hu
  · -- What is not in progress is started with the component, if it is not finished.
    intro hout
    have hml := (hiz.declared m (List.mem_of_getElem? hm)).1
    have hnl := (hiz.declared n (List.mem_of_getElem? hn)).1
    have hxi : m.source ∈ y.catalog.interceptors := by
      obtain ⟨target, ht, -⟩ := hx
      exact List.mem_filter.2 ⟨hdecl, by rw [hml.intercepted_eq, ht]; rfl⟩
    have hup := State.escorted_push (.refl y.catalog) n.source m.source hxi hid
      ((hnl.isInterceptedBy_iff hml).2 hx)
    have hup : t.Upcoming 0 m.source.id :=
      ht.invariant (fun _ _ h => State.Upcoming.move h (Nat.zero_le _)) hup
    refine (State.upcoming_zero_iff.1 hup).resolve_left fun hin => ?_
    rw [hs, Frame.ids_component, hg] at hin
    rcases List.mem_cons.1 hin with e | hin
    · exact hid e
    · exact hout hin

/-- **Interceptors come before what they intercept**, if they can. In a plan, each component other
than a proxy was started as a root or for a claim, or as an interceptor of one that was. Where it
was started as a root or for a claim, and was not in progress already, exactly those of the
interceptors bound to it and declared by then come before it that were not in progress
themselves. -/
theorem interceptors_precede (r : Resolver) (fuel : Nat) (drafts : List Draft) (round : Nat)
    (p : Plan) (h : r.resolve fuel drafts round = .ok (.resolved p)) :
    ∃ c₀ z, r.declareAll fuel ∅ drafts = .ok c₀ ∧ r.Completes fuel drafts round z ∧
      p = z.toPlan round ∧
      ∀ (j : Nat) (q : Component) (n : Node), p.components[j]? = some q →
        z.resolved[j]? = some n → q.isProxy = false →
        (∃ y d, Starts r round c₀ z y d ∧
          (n.source = d ∧ d.id ∉ Frame.ids y.stack ∨ n.source ∈ y.wrapping d)) ∧
        ∀ y, Starts r round c₀ z y n.source → n.source.id ∉ Frame.ids y.stack →
          ∀ i ∈ q.interceptors, ∀ m, z.resolved[i]? = some m → m.source ∈ y.catalog.sources →
            (i < j ↔ m.source.id ∉ Frame.ids y.stack) := by
  obtain ⟨z, hz, rfl⟩ := resolve_eq_resolved_iff.1 h
  obtain ⟨c₀, hc₀, hroots, hrun⟩ := hz
  have hz : r.Completes fuel drafts round z := ⟨c₀, hc₀, hroots, hrun⟩
  have hcourse : Course r round (.start c₀) z := course_of_run hrun z rfl
  have hc : Declared r drafts c₀ := by simpa using declared_of_declareAll (declared_nil r) hc₀
  refine ⟨c₀, z, hc₀, hz, rfl, fun j q n hq hn hp => ?_⟩
  obtain ⟨n', hn', rfl⟩ := State.exists_of_toPlan hq
  obtain rfl := Option.some.inj (hn.symm.trans hn')
  refine ⟨(begun_of_course hc hcourse).2 n (List.mem_of_getElem? hn) hp, ?_⟩
  exact fun y hy hnew i hi m hm hdecl => lt_iff_of_starts hc hy hz.stack hnew hn hi hm hdecl

/-- The tracer comes before the service, and was not in progress when the service was started. -/
theorem interceptors_precede_traced : ∃ c₀ z y n m, traced.Completes 50 tracedDrafts 0 z ∧
    traced.resolve 50 tracedDrafts 0 = .ok (.resolved (z.toPlan 0)) ∧
    z.resolved[1]? = some n ∧ z.resolved[0]? = some m ∧ 0 ∈ z.interceptorsOf 1 n ∧
    Starts traced 0 c₀ z y n.source ∧ n.source.id ∉ Frame.ids y.stack ∧
    m.source.id ∉ Frame.ids y.stack := by
  obtain ⟨z, hz, hP⟩ := exists_completes traced 50 tracedDrafts 0
    (fun s => (s.resolved[0]?.any fun m => m.source.id == 1) && s.resolved[1]?.any fun n =>
      !n.source.isProxy && n.source.intercepted == none && (s.interceptorsOf 1 n).contains 0)
    (by decide +kernel)
  obtain ⟨hm, hn⟩ := Bool.and_eq_true_iff.1 hP
  obtain ⟨m, hm, hid⟩ := (Option.any_eq_true _ _).1 hm
  obtain ⟨n, hn, hP⟩ := (Option.any_eq_true _ _).1 hn
  simp only [Bool.and_eq_true, Bool.not_eq_true', beq_iff_eq, List.contains_iff_mem] at hP hid
  obtain ⟨⟨hp, hnone⟩, hi⟩ := hP
  have hplan := resolve_eq_resolved_iff.2 ⟨z, hz, rfl⟩
  obtain ⟨c₀, z', hc₀, hz', -, h⟩ := interceptors_precede traced 50 tracedDrafts 0 _ hplan
  obtain rfl := hz'.unique hz
  have hq : (z'.toPlan 0).components[1]? = some (z'.componentAt 1 n) := by
    rw [State.getElem?_toPlan, hn, Option.map_some]
  obtain ⟨⟨y, d, hy, hd⟩, h⟩ := h 1 _ n hq hn hp
  rcases hd with ⟨rfl, hnew⟩ | hw
  · -- The tracer is the second draft.
    have hc : Declared traced tracedDrafts c₀ := by
      simpa using declared_of_declareAll (declared_nil traced) hc₀
    obtain ⟨x, hx, e⟩ := hc.exists_source (k := 1) rfl (by decide)
    have hmoves := hy.moves
    have hall := hmoves.trans (Course.moves hy.onward)
    have hiz := Moves.identified hall hc
    have hxz := Catalog.declares_of_mem hiz.sound ((Moves.grows hall).catalog.sources.mem hx)
    have hxid : x.id = 1 := congrArg Declaration.id e
    obtain rfl : m.source = x := hiz.source_eq (List.mem_of_getElem? hm) hxz (hid.trans hxid.symm)
    have hdecl : m.source ∈ y.catalog.sources := (Moves.grows hmoves).catalog.sources.mem hx
    exact ⟨c₀, z', y, n, m, hz, hplan, hn, hm, hi, hy, hnew,
      (h y hy hnew 0 hi m hm hdecl).1 Nat.zero_lt_one⟩
  · -- What is started with another component is an interceptor.
    have hsome := (State.intercepts_of_mem_wrapping hw).1
    rw [show n.source.intercepted = none from hnone] at hsome
    cases hsome

/-! ## Inspectors that come late -/

/-- An inspector intercepts services, and can be made on the fly. Reviewers intercept inspectors. -/
def inspected : Resolver where
  types.types := .ofList
    [("Inspector", { intercepts := some (.named "Service" []), constructor := some [] }),
     ("Reviewer", { intercepts := some (.named "Inspector" []) }),
     ("Service", { kind := .interface }), ("Users", { supertypes := [.named "Service" []] })]

/-- An inspector needs the service that it intercepts. -/
def inspectorDrafts : List Draft :=
  [{ name := "inspector", type := .named "Inspector" [], isRoot := true,
     claims := [{ type := .named "Users" [] }] },
   { name := "users", type := .named "Users" [] }]

/-- An application, which is looked at after the service, needs an inspector. -/
def lateDrafts : List Draft :=
  [{ name := "users", type := .named "Users" [], isRoot := true },
   { name := "app", type := .named "App" [], isRoot := true,
     claims := [{ type := .named "Inspector" [] }] }]

/-- An inspector is started only because it intercepts the service, and is reviewed later. -/
def reviewDrafts : List Draft :=
  [{ name := "users", type := .named "Users" [], isRoot := true },
   { name := "inspector", type := .named "Inspector" [] },
   { name := "reviewer", type := .named "Reviewer" [], isRoot := true }]

/-- An interceptor comes after what it intercepts if it needs it or is declared after it, and can
do so if what it intercepts was started as an interceptor itself. -/
theorem interceptor_after_component :
    (∃ p q i, inspected.resolve 50 inspectorDrafts 0 = .ok (.resolved p) ∧ q ∈ p.components ∧
      i ∈ q.interceptors ∧ q.index < i) ∧
    (∃ p q i, inspected.resolve 50 lateDrafts 0 = .ok (.resolved p) ∧ q ∈ p.components ∧
      i ∈ q.interceptors ∧ q.index < i) ∧
    ∃ p q i, inspected.resolve 50 reviewDrafts 0 = .ok (.resolved p) ∧ q ∈ p.components ∧
      i ∈ q.interceptors ∧ q.index < i := by
  have hfind {drafts : List Draft} (h : ∃ p, inspected.resolve 50 drafts 0 = .ok (.resolved p) ∧
      (p.components.any fun q => q.interceptors.any (q.index < ·)) = true) :
      ∃ p q i, inspected.resolve 50 drafts 0 = .ok (.resolved p) ∧ q ∈ p.components ∧
        i ∈ q.interceptors ∧ q.index < i := by
    obtain ⟨p, hp, h⟩ := h
    obtain ⟨q, hq, h⟩ := List.any_eq_true.1 h
    obtain ⟨i, hi, h⟩ := List.any_eq_true.1 h
    exact ⟨p, q, i, hp, hq, hi, of_decide_eq_true h⟩
  exact ⟨hfind (exists_plan _ (by decide +kernel)), hfind (exists_plan _ (by decide +kernel)),
    hfind (exists_plan _ (by decide +kernel))⟩

end Resolver

end Wiring
