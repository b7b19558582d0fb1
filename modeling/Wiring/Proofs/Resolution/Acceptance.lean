import Wiring.Proofs.Resolution.Rivals
import Wiring.Proofs.Resolution.Specialization
import Wiring.Proofs.Resolution.Synthesis
import Wiring.Proofs.Resolution.Variables
/-!
# An accepted answer makes progress

An extension is asked for a claim that nothing satisfies, and a draft that it supplies is declared
only if it can satisfy the claim. This is tried on a declaration that is in no catalog. Then the
claim is looked up again, among finished components, sources and templates, as any other is: by
names, with a choice among candidates. If both did not agree, the same extension would be asked
forever.

They agree: what is tried depends on the type and the tags only, and since nothing else satisfies
the claim, the new declaration is the only candidate (`Resolver.accepted_answers_make_progress`).

* `State.declaredMatches_addSource`: a new source that fits the claim is found.
* `Claim.specializations?_concat`: a new template that can be specialized for it is.
* `Resolver.exists_specialize?_of_canSatisfy?`: a template that was tried can be.
-/

namespace Wiring

/-! ## What is found in addition -/

/-- A new source is found for the claims that it fits. -/
theorem State.declaredMatches_addSource {u : Universe} {s : State} {c : Claim} {d : Source}
    (hs : (s.catalog.addSource d).Sound u) (h : s.catalog.Sound u)
    (hn : s.declaredMatches c = []) (hp : d.isProxy = false) (hf : d.Fits c) :
    ({ s with catalog := s.catalog.addSource d } : State).declaredMatches c = [d] := by
  rw [declaredMatches_eq h, candidates] at hn
  rw [declaredMatches_eq hs, candidates]
  have hsources : (s.catalog.addSource d).sources = s.catalog.sources ++ [d] := rfl
  rw [hsources, List.filter_append, hn]
  simp [hp, hf]

/-- A new template is found for the claims for which it can be specialized. -/
theorem Claim.specializations?_concat {u : Universe} {n : Nat} {c : Claim} {ts : List Declaration}
    {t : Declaration} {draft : Draft} (h : c.specializations? u n ts = some [])
    (ht : t.specialize? u n c = some (some draft)) :
    c.specializations? u n (ts ++ [t]) = some [draft] := by
  obtain ⟨found, hf, h⟩ := Option.bind_eq_some_iff.1 h
  have hnil : found.filterMap id = [] := narrow_eq_nil (Option.some.inj h)
  have hfound : (ts ++ [t]).mapM (fun d => d.specialize? u n c) = some (found ++ [some draft]) := by
    rw [List.mapM_append, hf]
    simp [ht]
  refine Option.bind_eq_some_iff.2 ⟨_, hfound, ?_⟩
  rw [List.filterMap_append, hnil]
  rfl

namespace Resolver

variable {r : Resolver} {s : State} {c : Claim} {q x : Source} {n round : Nat} {draft : Draft}
  {catalog catalog' : Catalog}

/-- A template that can satisfy a claim can be specialized for it, whatever its identity is. -/
theorem exists_specialize?_of_canSatisfy? (h : r.canSatisfy? n draft c = some true)
    (ht : draft.isTemplate = true) (id : Nat) :
    ∃ σ, c.tags.Accepts draft.tags ∧
      r.types.unify? n (draft.declare id).type c.type = some (some σ) ∧
      (draft.declare id).specialize? r.types n c =
        some (some ((draft.declare id).instantiate σ)) := by
  unfold canSatisfy? at h
  dsimp only at h
  rw [Draft.isTemplate_declare, ht, if_pos rfl] at h
  obtain ⟨o, ho, h⟩ := Option.bind_eq_some_iff.1 h
  unfold Declaration.specialize? at ho
  split at ho <;> rename_i ha
  · -- Types and tags do not depend on the identity.
    have htype : (draft.declare (UInt32.size - 1)).type = (draft.declare id).type := rfl
    rw [htype] at ho
    obtain ⟨σ?, hσ, ho⟩ := Option.bind_eq_some_iff.1 ho
    cases σ? with
    | none =>
      cases ho
      cases h
    | some σ =>
      exact ⟨σ, ha, hσ, Declaration.specialize?_of_unify? ha hσ⟩
  · cases ho
    cases h

/-! ## What is built next -/

/-- What a draft that an extension supplies for a claim becomes, and what is built for the claim
then. -/
inductive Accepts (u : Universe) (before : Catalog) (c : Claim) (draft : Draft) :
    (declared : Catalog) → (x : Source) → (built : Catalog) → Prop
  /-- It becomes a source, and this is built. -/
  | source {x : Source} (ht : draft.isTemplate = false) (hx : x.Listed u)
      (e : x.toDeclaration = before.declare draft) (hf : x.Fits c) :
      Accepts u before c draft (before.addSource x) x (before.addSource x)
  /-- It becomes a template, and an instance of it is declared and built. -/
  | specialized {x : Source} {σ : Substitution} {built : Catalog} (ht : draft.isTemplate = true)
      (hx : x.Listed u)
      (e : x.toDeclaration = (before.addTemplate (before.declare draft)).declare
        ((before.declare draft).instantiate σ))
      (ha : (before.addTemplate (before.declare draft)).Added u
        ((before.declare draft).instantiate σ) built) (hf : x.Fits c) :
      Accepts u before c draft (before.addTemplate (before.declare draft)) x built

/-- **What is accepted is built next**, whatever extensions would answer then. -/
theorem exists_build_of_accepted (round : Nat) (q : Source) (hf : r.types.Finitary)
    (hi : s.Identified r.types) (hx : s.Indexed) (hn : s.declaredMatches c = [])
    (ht : c.specializations? r.types n s.catalog.templates = some []) (hp : draft.isProxy = false)
    (hc : r.canSatisfy? n draft c = some true) (ha : s.catalog.Added r.types draft catalog) :
    ∃ x catalog' m, Accepts r.types s.catalog c draft catalog x catalog' ∧
      ∀ k ≥ m, ∀ es stack,
        ({ r with extensions := es } : Resolver).decide k round { s with catalog, stack } q c =
          .ok (.build x catalog') := by
  have hr : s.resolvedMatches c = [] := State.resolvedMatches_eq_nil hx hi hn
  have hsound := ha.sound hi.sound
  cases ha with
  | @source x htempl hl e =>
    rw [Catalog.declare, Draft.isTemplate_declare] at htempl
    have hfits : x.Fits c := by
      rw [hl.fits_iff, e]
      exact satisfies_of_canSatisfy? hc htempl _
    have hproxy : x.isProxy = false := by rw [e]; exact hp
    have hd := State.declaredMatches_addSource hsound hi.sound hn hproxy hfits
    have hpos : s.position? x.id = none := by
      rw [e]
      exact hi.position?_nextId
    exact ⟨x, _, 0, .source htempl hl e hfits, fun k _ es stack =>
      decide_of_declaration (r := { r with extensions := es })
        (s := { s with catalog := s.catalog.addSource x, stack }) hr hd hpos⟩
  | template htempl =>
    rw [Catalog.declare, Draft.isTemplate_declare] at htempl
    obtain ⟨σ, hacc, hσ, hspec⟩ :=
      exists_specialize?_of_canSatisfy? hc htempl s.catalog.nextId
    have hone := Claim.specializations?_concat ht hspec
    set t := s.catalog.declare draft with ht'
    obtain ⟨m, ⟨x, catalog'⟩, hreg⟩ :=
      hf.exists_registerSource? (s.catalog.addTemplate t) (t.instantiate σ)
    obtain ⟨hl, e, ha⟩ := Catalog.added_of_registerSource? hreg
    have hfits : x.Fits c := by
      have hs : Supplies r { s with catalog := s.catalog.addTemplate t } c (t.instantiate σ) :=
        .specialized (List.mem_append_right _ (List.mem_singleton_self t)) hacc hσ
      rw [hl.fits_iff, e]
      exact hs.satisfies _
    refine ⟨x, catalog', max n m, .specialized htempl hl e ha hfits, fun k hk es stack => ?_⟩
    exact decide_of_specialization (r := { r with extensions := es })
      (s := { s with catalog := s.catalog.addTemplate t, stack }) hr hn
      (Claim.specializations?_mono (le_of_max_le_left hk) hone)
      (Catalog.registerSource?_mono (le_of_max_le_right hk) hreg)

/-! ## The next look -/

theorem specializations?_of_templates (h : r.fromTemplates n s c = .ok none) :
    c.specializations? r.types n s.catalog.templates = some [] := by
  obtain ⟨ds, hds, h⟩ := bind_eq_ok.1 h
  split at h
  · exact budgeted_eq_ok.1 hds
  · obtain ⟨x, -, h⟩ := bind_eq_ok.1 h
    cases h
  · cases h

/-- A claim is looked up again after an extension supplied a draft for it, for which there was
nothing else. -/
theorem exists_supplied_of_decide (h : r.decide n round s q c = .ok (.retry catalog)) :
    ∃ name draft,
      Extension.consult r.extensions c q.toDeclaration round = .ok (some ⟨name, .supply draft⟩) ∧
      s.declaredMatches c = [] ∧ c.specializations? r.types n s.catalog.templates = some [] ∧
      r.canSatisfy? n { draft with origin := .extension name } c = some true ∧
      s.catalog.Added r.types { draft with origin := .extension name } catalog := by
  rcases cases_of_decide h with h | ⟨h₁, h | ⟨h₂, h | h⟩⟩
  · cases direct_of_declarations h
  · rcases direct_or_fork_of_templates h with h | ⟨ds, -, e⟩
    · cases h
    · cases e
  · cases direct_of_nothing h
  · obtain ⟨o, ho, h⟩ := bind_eq_ok.1 h
    split at h
    · next name draft =>
      obtain ⟨x, ha, h⟩ := bind_eq_ok.1 h
      cases h
      obtain ⟨d, catalog, e, hv, hc, hr⟩ := accepted ha
      cases e
      exact ⟨name, draft, checked_eq_ok.1 ho, declaredMatches_of_declarations h₁,
        specializations?_of_templates h₂, hc, (Catalog.added_of_register? hr).2⟩
    · cases h
    · cases h
    · cases h

/-- **An accepted answer makes progress.** If types reach finitely many others and a claim is to be
looked up again in some state of some run, then because an extension supplied a draft for it. With
enough steps, the next look at the claim leads to building the declaration that the draft became,
or, if this is a template, an instance of it that fits the claim. No extension is asked before that,
so that the outcome is the same with other extensions, or with none. This is what the engine does
in two steps, if the claim is the next one of the component on top. -/
theorem accepted_answers_make_progress (r : Resolver) (drafts : List Draft) (round : Nat)
    (goal : Option Claim) (s : State) (hf : r.types.Finitary) (hs : Reachable r drafts round goal s)
    (n : Nat) (stack : List Frame) (q : Source) (c : Claim) (catalog : Catalog)
    (h : r.decide n round { s with stack } q c = .ok (.retry catalog)) :
    ∃ name draft x built m,
      Extension.consult r.extensions c q.toDeclaration round = .ok (some ⟨name, .supply draft⟩) ∧
      Accepts r.types s.catalog c { draft with origin := .extension name } catalog x built ∧
      (∀ k ≥ m, ∀ es,
        ({ r with extensions := es } : Resolver).decide k round { s with catalog, stack } q c =
          .ok (.build x built)) ∧
      ∀ f cs, s.stack = .component f :: stack → ¬ Frame.ClosesCycle f.source.id stack →
        f.source = q → f.pending = c :: cs → c.kind.isSingle = true →
          r.step n round goal s = .ok (.next { s with catalog }) ∧
          ∀ k ≥ m, ∀ es,
            ({ r with extensions := es } : Resolver).step k round goal { s with catalog } =
              .ok (.next ({ s with catalog := built }.push x)) := by
  obtain ⟨name, draft, hasked, hn, ht, hc, ha⟩ := exists_supplied_of_decide h
  obtain ⟨x, built, m, hx, hm⟩ :=
    exists_build_of_accepted round q hf hs.identified hs.indexed hn ht rfl hc ha
  refine ⟨name, draft, x, built, m, hasked, hx, fun k hk es => hm k hk es stack, ?_⟩
  rintro f cs htop hb rfl hp hkind
  refine ⟨step_of_retry htop hb hp hkind h, fun k hk es => ?_⟩
  exact step_of_build (s := { s with catalog }) htop hb hp hkind (hm k hk es stack)

/-- In a run that is tried, a claim of the component on top is looked up again. -/
theorem exists_retry (r : Resolver) (n : Nat) (drafts : List Draft) (round k : Nat)
    (h : (match r.declareAll n ∅ drafts with
      | .ok c => !c.roots.isEmpty && (r.stepTimes n round none k (.start c)).any fun s =>
        match s.stack with
        | .component f :: below =>
          f.source.id ∉ Frame.ids below && f.pending.head?.any fun c =>
            c.kind.isSingle && match r.decide n round { s with stack := below } f.source c with
              | .ok (.retry _) => true
              | _ => false
        | _ => false
      | .error _ => false) = true) :
    ∃ s f below c cs catalog, Reachable r drafts round none s ∧ s.stack = .component f :: below ∧
      ¬ Frame.ClosesCycle f.source.id below ∧ f.pending = c :: cs ∧ c.kind.isSingle = true ∧
      r.decide n round { s with stack := below } f.source c = .ok (.retry catalog) := by
  obtain ⟨s, hs, hP⟩ := exists_reachable r n drafts round k _ h
  split at hP
  · next f below htop =>
    obtain ⟨hb, hP⟩ := Bool.and_eq_true_iff.1 hP
    obtain ⟨c, hc, hP⟩ := (Option.any_eq_true _ _).1 hP
    obtain ⟨hk, hP⟩ := Bool.and_eq_true_iff.1 hP
    obtain ⟨cs, hp⟩ := List.head?_eq_some_iff.1 hc
    have hcyc := Frame.not_closesCycle (of_decide_eq_true hb)
    split at hP
    · next catalog hd => exact ⟨s, f, below, c, cs, catalog, hs, htop, hcyc, hp, hk, hd⟩
    · cases hP
  · cases hP

theorem accepted_answers_make_progress_depot : depot.types.Finitary ∧
    ∃ s f below c cs catalog, Reachable depot depotDrafts 1 none s ∧
      s.stack = .component f :: below ∧ f.pending = c :: cs ∧
      depot.decide 60 1 { s with stack := below } f.source c = .ok (.retry catalog) ∧
      ∃ x built m, ∀ k ≥ m,
        depot.unextended.step k 1 none { s with catalog } =
          .ok (.next ({ s with catalog := built }.push x)) := by
  have hf : depot.types.Finitary := Universe.finitary_of_hasVars (by decide +kernel)
  obtain ⟨s, f, below, c, cs, catalog, hs, htop, hb, hp, hk, hd⟩ :=
    exists_retry depot 60 depotDrafts 1 16 (by decide +kernel)
  obtain ⟨-, -, x, built, m, -, -, -, hstep⟩ :=
    accepted_answers_make_progress depot depotDrafts 1 none s hf hs 60 below f.source c catalog hd
  obtain ⟨-, hnext⟩ := hstep f cs htop hb rfl hp hk
  exact ⟨hf, s, f, below, c, cs, catalog, hs, htop, hp, hd, x, built, m,
    fun k hk => hnext k hk []⟩

end Resolver

end Wiring
