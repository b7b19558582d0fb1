import Wiring.Proofs.Resolution.Cycles
import Wiring.Proofs.Resolution.Renumbering
import Wiring.Proofs.Resolution.Scans
import Wiring.Proofs.Resolution.Simulation
/-!
# What idle declarations do not disturb

A state that is renumbered and holds idle declarations beside those of another (`State.Padded`) is
worked on in the same way as the other, if nothing that the idle ones provide is ever claimed and
there are no extensions to ask. Each claim is decided in the same way, each cycle is broken in the
same way, and so each step leads to states of which one is again the renumbered form of the other
(`Resolver.agrees_step_padded`). By `Resolver.Simulates.run` so do whole runs.

That nothing else is claimed is `State.Within`. It also says that whatever is declared on the fly is
a source, so templates never change.
-/

namespace Wiring

variable {f : Nat → Nat} {N : String → Prop} {L : Prop}

/-! ## Claims -/

/-- The same decision, in a state with idle declarations. -/
inductive Decision.Padded (f : Nat → Nat) (N : String → Prop) : Decision → Decision → Prop
  /-- By an edge that waits for no declaration. -/
  | bind {e : Edge} (h : e.renumber f = e) : Padded f N (.bind e) (.bind e)
  /-- By a declaration that is to be built. -/
  | build (d : Source) {c c' : Catalog} (h : c.Padded f N c') :
      Padded f N (.build d c) (.build (d.renumber f) c')
  /-- By one of the same candidates. -/
  | fork (candidates : List Draft) : Padded f N (.fork candidates) (.fork candidates)

namespace Resolver

open State

variable {r : Resolver} {n round : Nat} {goal : Option Claim} {s t : State} {c : Claim}
  {d q : Source} {draft : Draft}

theorem agrees_declarations (h : s.Padded f N t) (hf : f.Injective) (hs : s.catalog.Sound r.types)
    (ht : t.catalog.Sound r.types) (hc : c.type.Within N) :
    Agrees L (Option.Rel (Decision.Padded f N)) (fromDeclarations s q c)
      (fromDeclarations t (q.renumber f) c) := by
  unfold fromDeclarations
  rw [h.findResolved hf hs ht hc, h.findDeclaration hs ht hc,
    settle_map (f := f) (g := Match.renumber f) Match.source Match.source fun _ => rfl,
    settle_map (f := f) (g := Source.renumber f) id id fun _ => rfl]
  cases (s.findResolved c).settle c q Match.source with
  | error e => exact .failure rfl
  | ok m =>
    cases m with
    | some m => exact .ok (.some (.bind (Edge.renumber_single _ _)))
    | none =>
      cases (s.findDeclaration c).settle c q id with
      | error e => exact .failure rfl
      | ok d =>
        cases d with
        | none => exact .ok .none
        | some d =>
          have hp : t.position? (d.renumber f).id = s.position? d.id := h.position? hf d.id
          have hfit : (d.renumber f).fit? c = d.fit? c := rfl
          simp only [checked, Except.map, Option.map, bind, Except.bind, hp, hfit]
          cases s.position? d.id with
          | none => exact .ok (.some (.build d h.catalog))
          | some i =>
            cases d.fit? c with
            | none => exact .ok (.some (.build d h.catalog))
            | some fit => exact .ok (.some (.bind (Edge.renumber_single _ _)))

theorem agrees_buildNew (h : s.Padded f N t) (hd : draft.isTemplate = false) :
    Agrees L (Option.Rel (Decision.Padded f N)) (r.buildNew n s draft) (r.buildNew n t draft) :=
  (agrees_budgeted (h.catalog.registerSource? hd)).bind fun x y hxy => by
    obtain ⟨d, catalog⟩ := x
    obtain ⟨d', catalog'⟩ := y
    obtain ⟨rfl, hcat⟩ := hxy
    exact .ok (.some (.build d hcat))

theorem agrees_templates (h : s.Padded f N t) (hw : s.Within N) (hN : r.types.ConstructsWithin N)
    (hc : c.type.Within N) :
    Agrees L (Option.Rel (Decision.Padded f N)) (r.fromTemplates n s c)
      (r.fromTemplates n t c) := by
  unfold fromTemplates
  rw [h.catalog.templates]
  cases hds : c.specializations? r.types n s.catalog.templates with
  | none => exact .outOfFuel
  | some ds =>
    match ds with
    | [] => exact .ok .none
    | [draft] =>
      have hd := supplies_of_mem hds (List.mem_singleton_self draft)
      exact agrees_buildNew h (hw.supplies hN hc hd).1
    | a :: b :: rest => exact .ok (.some (.fork _))

theorem agrees_nothing (h : s.Padded f N t) (hw : s.Within N) (hN : r.types.ConstructsWithin N)
    (hc : c.type.Within N) :
    Agrees L (Option.Rel (Decision.Padded f N)) (r.fromNothing n s c) (r.fromNothing n t c) := by
  unfold fromNothing
  split
  · exact .ok (.some (.bind rfl))
  · split
    · next inner hi => exact agrees_buildNew h (hw.supplies hN hc (.wrapper hi)).1
    · split
      · next a ha =>
        split
        · next hacc => exact agrees_buildNew h (hw.supplies hN hc (.final ha hacc)).1
        · exact .ok .none
      · exact .ok .none

/-- **A claim is satisfied in the same way**, whatever idle declarations there are. -/
theorem agrees_decide_padded (h : s.Padded f N t) (hf : f.Injective) (hs : s.catalog.Sound r.types)
    (ht : t.catalog.Sound r.types) (hw : s.Within N) (hN : r.types.ConstructsWithin N)
    (hx : r.extensions = []) (hc : c.type.Within N) :
    Agrees L (Decision.Padded f N) (r.decide n round s q c)
      (r.decide n round t (q.renumber f) c) := by
  unfold decide
  rw [fromExtensions_eq_none hx, fromExtensions_eq_none hx]
  refine (agrees_declarations h hf hs ht hc).bind fun x y hxy => ?_
  cases hxy with
  | some hd => exact .ok hd
  | none =>
    refine (agrees_templates h hw hN hc).bind fun x y hxy => ?_
    cases hxy with
    | some hd => exact .ok hd
    | none =>
      refine (agrees_nothing h hw hN hc).bind fun x y hxy => ?_
      cases hxy with
      | some hd => exact .ok hd
      | none =>
        refine .failure ?_
        rw [unresolved, unresolved, h.chain]
        rfl

/-! ## Steps -/

theorem lookup_renumber (hf : f.Injective) (l : List ((TypeExpr × Nat) × Nat)) (type : TypeExpr)
    (id : Nat) : (l.map fun e => ((e.1.1, f e.1.2), e.2)).lookup (type, f id) =
      l.lookup (type, id) := by
  induction l with
  | nil => rfl
  | cons e l ih =>
    have he : ((type, f id) == (e.1.1, f e.1.2)) = ((type, id) == e.1) :=
      congrArg (type == e.1.1 && ·) hf.beq_eq
    rw [List.map_cons, List.lookup_cons, List.lookup_cons, he, ih]

theorem agrees_proxyFor (h : s.Padded f N t) (hf : f.Injective) (hv : c.type.hasVars = false) :
    Agrees L (fun x y => x.1 = y.1 ∧ x.2.Padded f N y.2) (r.proxyFor n s d c.type)
      (r.proxyFor n t (d.renumber f) c.type) := by
  have hl : t.proxies.lookup (c.type, (d.renumber f).id) = s.proxies.lookup (c.type, d.id) := by
    rw [h.proxies]
    exact lookup_renumber hf _ _ _
  have hd : r.proxyDraft (d.renumber f) c.type = r.proxyDraft d c.type := rfl
  unfold proxyFor
  rw [hl, hd]
  cases s.proxies.lookup (c.type, d.id) with
  | some i => exact .ok ⟨rfl, h⟩
  | none =>
    have ht : (r.proxyDraft d c.type).isTemplate = false := by
      simp [Draft.isTemplate, proxyDraft, hv]
    refine (agrees_budgeted (h.catalog.registerSource? ht)).bind fun x y hxy => ?_
    obtain ⟨proxy, catalog⟩ := x
    obtain ⟨proxy', catalog'⟩ := y
    obtain ⟨rfl, hcat⟩ := hxy
    have hlen : t.resolved.length = s.resolved.length := by rw [h.resolved, List.length_map]
    have hp := (h.withCatalog hcat).commit hf proxy [.proxyParameter d.forwardingClaim d.id none]
    refine .ok ⟨hlen.symm, hp.catalog, hp.resolved, hp.index, hp.stack, ?_, hp.forkDepth⟩
    simp [h.proxies, hlen]

theorem cycleChain_renumber (h : s.Padded f N t) (hf : f.Injective) (d : Source) :
    cycleChain t (d.renumber f) = cycleChain s d := by
  have hid : (fun x : Source => x.id != f d.id) ∘ Source.renumber f = fun x => x.id != d.id :=
    funext fun x => congrArg not hf.beq_eq
  rw [cycleChain, cycleChain, h.inProgress, Source.id_renumber, ← List.map_reverse,
    List.dropWhile_map, hid, List.map_map]
  rfl

theorem agrees_breakCycle (h : s.Padded f N t) (hf : f.Injective)
    (hv : ∀ w, .component w ∈ s.stack → ∀ c ∈ w.pending, c.type.Within N) :
    Agrees L (Option.Rel (State.Padded f N)) (r.breakCycle n s d)
      (r.breakCycle n t (d.renumber f)) := by
  unfold breakCycle
  rw [h.stack]
  rcases hst : s.stack with _ | ⟨_ | w, below⟩
  · exact .ok .none
  · exact .ok .none
  · simp only [List.map_cons, Frame.renumber]
    have hp : (w.renumber f).pending = w.pending := rfl
    rw [hp, Source.id_renumber, h.isInProgress hf]
    rcases hw : w.pending with _ | ⟨c, cs⟩
    · exact .ok .none
    · dsimp only
      split
      · split
        · have hc := hv w (by simp [hst]) c (by simp [hw])
          refine (agrees_proxyFor h hf hc.hasVars).bind fun x y hxy => ?_
          obtain ⟨i, s'⟩ := x
          obtain ⟨j, t'⟩ := y
          obtain ⟨rfl : i = j, hs : s'.Padded f N t'⟩ := hxy
          refine .ok (.some ?_)
          have ha := hs.withStack (.component (w.answer (.single c ⟨i, false⟩)) :: below)
          simpa [Frame.renumber, ComponentFrame.renumber_answer] using ha
        · rw [cycleChain_renumber h hf]
          exact .failure rfl
      · exact .ok .none

/-- **Working on a claim** leads to the same. -/
theorem agrees_advance (h : s.Padded f N t) (hf : f.Injective) (hs : s.catalog.Sound r.types)
    (ht : t.catalog.Sound r.types) (hw : s.Within N) (hN : r.types.ConstructsWithin N)
    (hx : r.extensions = []) (hc : c.type.Within N) (w : ComponentFrame) :
    Agrees L (Progress.Agree (State.Padded f N)) (r.advance n round s w c)
      (r.advance n round t (w.renumber f) c) := by
  have hanswer {e : Edge} (he : e.renumber f = e) :
      { s with stack := .component (w.answer e) :: s.stack }.Padded f N
        { t with stack := .component ((w.renumber f).answer e) :: t.stack } := by
    have ha := h.withStack (.component (w.answer e) :: s.stack)
    rwa [List.map_cons, Frame.renumber, ComponentFrame.renumber_answer, he, ← h.stack] at ha
  have hresumed : { s with stack := .component w :: s.stack }.Padded f N
      { t with stack := .component (w.renumber f) :: t.stack } := by
    have ha := h.withStack (.component w :: s.stack)
    rwa [List.map_cons, ← h.stack] at ha
  unfold advance
  split
  · refine .ok (.next ?_)
    unfold collect
    rw [h.awaited hf hs ht hc, h.resolvedMatches, List.map_map]
    cases s.awaited c with
    | none => exact hanswer rfl
    | some d => exact hresumed.push hf d
  · split
    · exact .ok (.next (hanswer rfl))
    · refine (agrees_decide_padded h hf hs ht hw hN hx hc).bind fun x y hxy => ?_
      cases hxy with
      | bind he => exact .ok (.next (hanswer he))
      | build d hcat => exact .ok (.next ((hresumed.withCatalog hcat).push hf d))
      | fork candidates => exact .ok (.fork ⟨rfl, rfl, rfl⟩ hresumed)

/-- **A step** leads to the same. -/
theorem agrees_step_padded (h : s.Padded f N t) (hf : f.Injective) (hs : s.catalog.Sound r.types)
    (ht : t.catalog.Sound r.types) (hw : s.Within N) (hN : r.types.ConstructsWithin N)
    (hx : r.extensions = []) : Agrees L (Progress.Agree (State.Padded f N))
      (r.step n round goal s) (r.step n round goal t) := by
  unfold step
  rw [h.stack]
  rcases hst : s.stack with _ | ⟨d | w, below⟩
  · exact .ok .finished
  · have hb := h.withStack below
    refine .ok (.next ?_)
    simp only [Source.id_renumber, hb.isResolved hf]
    split
    · exact hb
    · exact hb.push hf d
  · have hb := h.withStack below
    have hwb : { s with stack := below }.Within N := hw.tail hst
    have hcycle := agrees_breakCycle (L := L) (r := r) (n := n) (d := w.source) hb hf
      fun v hv => (hwb.pending v hv).2
    refine hcycle.bind fun x y hxy => ?_
    cases hxy with
    | some hs => exact .ok (.next hs)
    | none =>
      have hp : (w.renumber f).pending = w.pending := rfl
      simp only [hp]
      rcases hpw : w.pending with _ | ⟨c, cs⟩
      · have hcommit := hb.commit hf w.source w.edges
        have hg : reaches goal (w.renumber f).source = reaches goal w.source := rfl
        dsimp only
        rw [hg]
        split
        · exact .ok (.satisfied hcommit)
        · exact .ok (.next hcommit)
      · exact agrees_advance hb hf hs ht hwb hN hx
          ((hw.pending w (by simp [hst])).2 c (by simp [hpw])) w

theorem agrees_openBranch (h : s.Padded f N t) (hf : f.Injective) (hd : draft.isTemplate = false) :
    Agrees L (fun x y => x.1 = y.1 ∧ x.2.Padded f N y.2) (r.openBranch n s draft)
      (r.openBranch n t draft) := by
  refine (agrees_budgeted (h.catalog.registerSource? hd)).bind fun x y hxy => ?_
  obtain ⟨d, catalog⟩ := x
  obtain ⟨d', catalog'⟩ := y
  obtain ⟨rfl, hcat⟩ := hxy
  have hb : { s with catalog, forkDepth := s.forkDepth + 1 }.Padded f N
      { t with catalog := catalog', forkDepth := t.forkDepth + 1 } :=
    ⟨hcat, h.resolved, h.index, h.stack, h.proxies, congrArg (· + 1) h.forkDepth⟩
  exact .ok ⟨rfl, hb.push hf d⟩

/-! ## Runs -/

/-- A state and its renumbered form, which was reached from registered drafts. -/
structure Parallel (r : Resolver) (f : Nat → Nat) (N : String → Prop) (s t : State) : Prop where
  /-- The second is the first under new identities, with idle declarations beside. -/
  padded : s.Padded f N t
  /-- The first claims nothing that idle declarations provide. -/
  within : s.Within N
  /-- Its components are kept apart. -/
  identified : s.Identified r.types
  /-- The catalog of the second is filed. -/
  registered : t.catalog.Registered r.types

variable {s' t' : State}

theorem Parallel.moves (h : r.Parallel f N s t) (hN : r.types.ConstructsWithin N)
    (hx : r.extensions = []) (hp : s'.Padded f N t') (hs : Moves r s s')
    (ht : t'.catalog.Registered r.types) : r.Parallel f N s' t' := by
  have hi : s'.Identified r.types ∧ s'.Within N :=
    hs.invariant (I := fun s => s.Identified r.types ∧ s.Within N)
      (fun _ _ ⟨hi, hw⟩ hm => ⟨hi.move hm, hw.move hN hx hi hm⟩) ⟨h.identified, h.within⟩
  exact ⟨hp, hi.2, hi.1, ht⟩

/-- **A resolver without extensions does the same to a state and its renumbered form.** -/
theorem simulates_padded (round : Nat) (hf : f.Injective) (hN : r.types.ConstructsWithin N)
    (hx : r.extensions = []) : Simulates False r r round (r.Parallel f N) where
  step n goal s t h := by
    have hstep : Agrees False (Progress.Agree (State.Padded f N)) (r.step n round goal s)
        (r.step n round goal t) :=
      agrees_step_padded h.padded hf h.identified.sound h.registered.sound h.within hN hx
    refine hstep.imp fun p p' hp hp' hpp => ?_
    have hreg {t' : State} (hm : Moves r t t') : t'.catalog.Registered r.types :=
      hm.invariant (fun _ _ hc hm => hm.registered hc) h.registered
    cases hpp with
    | next hst =>
      exact .next (h.moves hN hx hst (moves_of_step_next hp) (hreg (moves_of_step_next hp')))
    | satisfied hst =>
      exact .satisfied
        (h.moves hN hx hst (moves_of_step_satisfied hp) (hreg (moves_of_step_satisfied hp')))
    | fork hfork hst =>
      obtain ⟨rfl, -⟩ := forksAt_of_step hp
      obtain ⟨rfl, -⟩ := forksAt_of_step hp'
      exact .fork hfork h
    | restart q => exact .restart q
    | finished => exact .finished
  openBranch n s t fork draft h hat hd := by
    obtain ⟨w, below, cs, hst, hw, -⟩ := hat.waiting
    have hc := (h.within.pending w (by simp [hst])).2 fork.claim (by simp [hw])
    have ht := (h.within.supplies hN hc (hat.supplied draft hd)).1
    refine (agrees_openBranch h.padded hf ht).imp fun x y hx' hy hxy => ⟨hxy.1, ?_⟩
    refine h.moves hN hx hxy.2 (moves_of_openBranch hat hd hx') ?_
    obtain ⟨z, hz, hy⟩ := bind_eq_ok.1 hy
    cases hy
    exact h.registered.registerSource (budgeted_eq_ok.1 hz)
  leave h k := ⟨h.padded.withDepth k, h.within.forkDepth k,
    h.identified.move (.nest k), h.registered⟩
  forkDepth h := h.padded.forkDepth.symm
  chain h := h.padded.chain.symm
  le := le_rfl
  tolerated h := h rfl

end Resolver

end Wiring
