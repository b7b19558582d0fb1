import Wiring.Proofs.Resolution.Recursion
import Wiring.Proofs.Resolution.Variables
/-!
# Extensions where nothing forks

Extensions are asked last, for claims that nothing else satisfies. A run without extensions that
gives a plan breaks off at no claim, so that a run with extensions asks none of them, as long as it
comes to the same states. Forks may lead it elsewhere: a branch that fails without extensions may
succeed with them, or demand another round. Where there are no forks, extensions change nothing,
whatever they would answer (`Resolver.extensions_are_conservative`).

* `Resolver.step_extended`: a step that is made without extensions is made with them.
* `Resolver.reachable_extended_iff`: the runs pass through the same states.
* `Resolver.neverForks_of_candidates`: forks are only where several templates can satisfy a claim.
-/

namespace Wiring

namespace Resolver

variable {r : Resolver} {drafts : List Draft} {n round : Nat} {goal : Option Claim} {s t : State}
  {q : Source} {c : Claim} {p : Progress} {d : Decision}

/-! ## Steps -/

/-- What decides a claim without extensions decides it before any is asked. -/
theorem decide_extended (h : r.unextended.decide n round s q c = .ok d) :
    r.decide n round s q c = .ok d := by
  rcases cases_of_decide h with h₁ | ⟨h₁, h₂ | ⟨h₂, h₃ | h₄⟩⟩
  · exact bind_eq_ok.2 ⟨_, h₁, rfl⟩
  · exact bind_eq_ok.2 ⟨_, h₁, bind_eq_ok.2 ⟨_, h₂, rfl⟩⟩
  · -- Templates led nowhere, since otherwise they would have decided the claim.
    exact bind_eq_ok.2 ⟨_, h₁, bind_eq_ok.2 ⟨_, h₂, bind_eq_ok.2 ⟨_, h₃, rfl⟩⟩⟩
  · rw [fromExtensions_eq_none rfl] at h₄
    cases h₄

theorem advance_extended {f : ComponentFrame}
    (h : r.unextended.advance n round s f c = .ok p) : r.advance n round s f c = .ok p := by
  unfold advance at h ⊢
  split at h <;> rename_i hall
  · rw [if_pos hall]
    exact h
  · rw [if_neg hall]
    split at h <;> rename_i htok
    · rw [if_pos htok]
      exact h
    · rw [if_neg htok]
      obtain ⟨d, hd, h⟩ := bind_eq_ok.1 h
      exact bind_eq_ok.2 ⟨d, decide_extended hd, h⟩

/-- **A step that is made without extensions is made with them.** -/
theorem step_extended (h : r.unextended.step n round goal s = .ok p) :
    r.step n round goal s = .ok p := by
  unfold step at h ⊢
  split at h
  · exact h
  · exact h
  · next f below hs =>
    obtain ⟨o, ho, h⟩ := bind_eq_ok.1 h
    refine bind_eq_ok.2 ⟨o, ho, ?_⟩
    cases o with
    | some t => exact h
    | none =>
      dsimp only at h ⊢
      split at h
      · exact h
      · exact advance_extended h

/-! ## Where forks are -/

/-- At a fork there are several specialized templates for a claim. -/
theorem several_of_fork {f : Fork} (h : r.step n round goal s = .ok (.fork f t)) :
    ∃ w below cs, s.stack = .component w :: below ∧ w.pending = f.claim :: cs ∧
      f.claim.specializations? r.types n s.catalog.templates = some f.candidates ∧
      2 ≤ f.candidates.length := by
  rcases decide_of_step h with e | ⟨_, e | e⟩ | ⟨w, below, c, cs, d, hs, hw, hd, he⟩
  · cases e
  · cases e
  · cases e
  · obtain ⟨ds, t, rfl, e⟩ | ⟨_, -, e⟩ := he
    · cases e
      refine ⟨w, below, cs, hs, hw, ?_⟩
      rcases cases_of_decide hd with h | ⟨-, h | ⟨-, h | h⟩⟩
      · cases direct_of_declarations h
      · obtain ⟨ds', hds, h⟩ := bind_eq_ok.1 h
        split at h
        · cases h
        · cases direct_of_buildNew h
        · next hnil hone =>
          cases h
          refine ⟨budgeted_eq_ok.1 hds, ?_⟩
          match ds, hnil, hone with
          | [], hnil, _ => exact absurd rfl hnil
          | [x], _, hone => exact absurd rfl (hone x)
          | _ :: _ :: _, _, _ => simp
      · cases direct_of_nothing h
      · rcases retry_or_restart_of_extensions h with ⟨_, e⟩ | ⟨_, e⟩ <;> cases e
    · cases e

/-- **A run never forks if it comes to no claim with two or more candidates.** -/
theorem neverForks_of_candidates
    (h : ∀ n s f below c cs ds, Reachable r drafts round none s →
      s.stack = .component f :: below → f.pending = c :: cs →
      c.specializations? r.types n s.catalog.templates = some ds → ds.length < 2) :
    NeverForks r drafts round := by
  intro n s f t hs hp
  obtain ⟨w, below, cs, htop, hw, hds, hlen⟩ := several_of_fork hp
  have := h n s w below f.claim cs f.candidates hs htop hw hds
  omega

/-- Of the specialized templates some are kept. -/
theorem narrow_sublist (ds : List Draft) : (c.narrow ds).Sublist ds := by
  unfold Claim.narrow
  split
  · exact .refl _
  · exact .refl _
  · split
    · split
      · exact .refl _
      · exact List.filter_sublist
    · exact List.filter_sublist

/-- There are at most as many candidates as templates. -/
theorem length_le_of_specializations {u : Universe} {ts : List Declaration} {ds : List Draft}
    (h : c.specializations? u n ts = some ds) : ds.length ≤ ts.length := by
  obtain ⟨found, hf, h⟩ := Option.bind_eq_some_iff.1 h
  cases h
  have hlen : found.length = ts.length := by
    simpa using congrArg List.length (map_some_of_mapM hf)
  calc (c.narrow (found.filterMap id)).length
      ≤ (found.filterMap id).length := (narrow_sublist _).length_le
    _ ≤ found.length := List.length_filterMap_le _ _
    _ = ts.length := hlen

/-- With a single template among the drafts, and no extensions to add another, there are no
forks. -/
theorem neverForks_of_templates (hx : r.extensions = []) (hg : r.types.Ground)
    (ht : ∀ n c, r.declareAll n ∅ drafts = .ok c → c.templates.length < 2) :
    NeverForks r drafts round := by
  refine neverForks_of_candidates fun n s f below cl cs ds hs htop hf hds => ?_
  obtain ⟨m, c, hc, hm⟩ := hs.exists_start
  have hd : Declared r drafts c := by simpa using declared_of_declareAll (declared_nil r) hc
  have he : s.catalog.templates = c.templates :=
    hm.templates_eq hd hg.constructsWithin hx (within_start_of_bound (bound_of_declareAll hc))
  calc ds.length
      ≤ s.catalog.templates.length := length_le_of_specializations hds
    _ = c.templates.length := by rw [he]
    _ < 2 := ht m c hc

/-! ## Runs without forks -/

theorem declareAll_unextended {catalog : Catalog} :
    r.unextended.declareAll n catalog drafts = r.declareAll n catalog drafts :=
  declareAll_congr rfl

/-- A run that meets no fork keeps to its own steps. -/
theorem run_extended {e : RunEnd} (hf : NeverForks r.unextended drafts round)
    (hs : Reachable r.unextended drafts round none s)
    (h : r.unextended.run round n none s = .ok e) : r.run round n none s = .ok e := by
  induction n generalizing s with
  | zero => cases h
  | succ n ih =>
    unfold run at h ⊢
    split at h
    · cases h
    · next hp =>
      rw [step_extended hp]
      exact h
    · next t hp =>
      rw [step_extended hp]
      exact h
    · next request hp =>
      rw [step_extended hp]
      exact h
    · next t hp =>
      rw [step_extended hp]
      exact ih (hs.next hp) h
    · next f t hp => exact absurd hp (hf n s f t hs)

/-- From each state of a round that gives a plan a step is made. -/
theorem exists_step_of_yields {y : Resolution} (hs : Reachable r drafts round none s)
    (hy : Yields r drafts round (.ok y)) : ∃ m p, r.step m round none s = .ok p := by
  obtain ⟨x, ⟨hx, m, hm⟩, he⟩ := hs.yields_iff.1 hy
  cases m with
  | zero => exact absurd hm.symm hx
  | succ m =>
    cases hp : r.step m round none s with
    | ok p => exact ⟨m, p, hp⟩
    | error i =>
      rw [run, hp] at hm
      subst hm
      cases he

/-- The states of a run without forks are outside forks. -/
theorem Reachable.goal_eq_none (hf : NeverForks r drafts round)
    (hs : Reachable r drafts round goal s) : goal = none := by
  induction hs with
  | start => rfl
  | next _ _ ih | satisfied _ _ ih | adopt _ _ _ _ _ ih => exact ih
  | branch hs h hl hd hb ih =>
    subst ih
    exact absurd h (hf _ _ _ _ hs)

theorem Reachable.extended (hf : NeverForks r.unextended drafts round)
    (hs : Reachable r.unextended drafts round goal s) : Reachable r drafts round goal s := by
  obtain rfl := hs.goal_eq_none hf
  generalize hg : none = goal at hs
  induction hs with
  | start hc hr =>
    rw [declareAll_unextended] at hc
    exact .start hc hr
  | next hs h ih => exact (ih hg).next (step_extended h)
  | satisfied hs h ih => exact (ih hg).satisfied (step_extended h)
  | branch => cases hg
  | adopt hs h hl he ht ih =>
    subst hg
    exact absurd h (hf _ _ _ _ hs)

/-- If extensions are never needed, they are never asked: what a step leads to with them is what it
leads to without them. -/
theorem Reachable.step_unextended {y : Resolution}
    (hs : Reachable r.unextended drafts round none s)
    (hy : Yields r.unextended drafts round (.ok y)) (h : r.step n round none s = .ok p) :
    ∃ m, r.unextended.step m round none s = .ok p := by
  obtain ⟨m, p', hp⟩ := exists_step_of_yields hs hy
  obtain rfl : p = p' := ok_unique (x := fun k => r.step k round none s) approximates_step h
    (step_extended hp)
  exact ⟨m, hp⟩

theorem Reachable.unextended {y : Resolution} (hf : NeverForks r.unextended drafts round)
    (hy : Yields r.unextended drafts round (.ok y)) (hs : Reachable r drafts round goal s) :
    goal = none ∧ Reachable r.unextended drafts round none s := by
  induction hs with
  | start hc hr =>
    rw [← declareAll_unextended] at hc
    exact ⟨rfl, .start hc hr⟩
  | next hs h ih =>
    obtain ⟨rfl, ih⟩ := ih
    obtain ⟨m, h⟩ := ih.step_unextended hy h
    exact ⟨rfl, ih.next h⟩
  | satisfied hs h ih =>
    obtain ⟨rfl, ih⟩ := ih
    obtain ⟨m, h⟩ := ih.step_unextended hy h
    exact ⟨rfl, ih.satisfied h⟩
  | branch hs h hl hd hb ih =>
    obtain ⟨rfl, ih⟩ := ih
    obtain ⟨m, h⟩ := ih.step_unextended hy h
    exact absurd h (hf _ _ _ _ ih)
  | adopt hs h hl he ht ih =>
    obtain ⟨rfl, ih⟩ := ih
    obtain ⟨m, h⟩ := ih.step_unextended hy h
    exact absurd h (hf _ _ _ _ ih)

/-- **The runs with and without extensions pass through the same states.** -/
theorem reachable_extended_iff {y : Resolution} (hf : NeverForks r.unextended drafts round)
    (hy : Yields r.unextended drafts round (.ok y)) :
    Reachable r drafts round goal s ↔ Reachable r.unextended drafts round goal s := by
  constructor
  · intro hs
    obtain ⟨rfl, h⟩ := hs.unextended hf hy
    exact h
  · exact Reachable.extended hf

theorem resolve_extended {p : Plan} (hf : NeverForks r.unextended drafts round)
    (h : r.unextended.resolve n drafts round = .ok (.resolved p)) :
    r.resolve n drafts round = .ok (.resolved p) := by
  obtain ⟨s, ⟨catalog, hc, hr, he⟩, rfl⟩ := resolve_eq_resolved_iff.1 h
  have he := run_extended hf (.start hc hr) he
  rw [declareAll_unextended] at hc
  exact resolve_eq_resolved_iff.2 ⟨s, ⟨catalog, hc, hr, he⟩, rfl⟩

/-- **Extensions are conservative where nothing forks.** If a round without extensions gives a plan,
and its run comes to no claim for which several templates are to be tried, then with any extensions,
whatever they would answer, it gives the same plan, within the same number of steps. Both runs pass
through the same states. -/
theorem extensions_are_conservative (r : Resolver) (drafts : List Draft) (round n : Nat) (p : Plan)
    (h : r.unextended.resolve n drafts round = .ok (.resolved p))
    (hf : NeverForks r.unextended drafts round) (es : List Extension) :
    ({ r with extensions := es } : Resolver).resolve n drafts round = .ok (.resolved p) ∧
      ∀ goal s, Reachable { r with extensions := es } drafts round goal s ↔
        Reachable r.unextended drafts round goal s := by
  have hy : Yields r.unextended drafts round (.ok (.resolved p)) := ⟨nofun, n, h⟩
  exact ⟨resolve_extended (r := { r with extensions := es }) hf h,
    fun goal s => reachable_extended_iff (r := { r with extensions := es }) hf hy⟩

/-- An application needs the bus, whose hub needs the bus itself, a repository, of which there is a
template, and an optional user. Nothing is missing. -/
def stockedDrafts : List Draft :=
  [{ name := "app", type := .named "App" [], isRoot := true,
     claims := [{ type := .named "Bus" [] }, { type := .named "Repo" [.named "User" []] },
       { type := .named "Maybe" [.named "User" []] }] },
   { name := "hub", type := .named "Hub" [], claims := [{ type := .named "Port" [] }] },
   { name := "port", type := .named "Port" [], claims := [{ type := .named "Bus" [] }] },
   { name := "repo", type := .named "Repo" [.named "T" []], typeParams := ["T"] }]

theorem extensions_are_conservative_stocked :
    NeverForks depot.unextended stockedDrafts 0 ∧
      ∃ p, depot.unextended.resolve 60 stockedDrafts 0 = .ok (.resolved p) ∧
        p.components.map Component.name =
          ["hub$PromisedProxy", "port", "hub", "repo<User>", "optional<User>", "app"] ∧
        depot.resolve 60 stockedDrafts 0 = .ok (.resolved p) := by
  have hf : NeverForks depot.unextended stockedDrafts 0 := by
    refine neverForks_of_templates rfl ground_depot fun n c hc => ?_
    have hd : Declared depot.unextended stockedDrafts c := by
      simpa using declared_of_declareAll (declared_nil _) hc
    rw [hd.templates]
    decide +kernel
  obtain ⟨p, hp, hnames⟩ := exists_plan (x := depot.unextended.resolve 60 stockedDrafts 0)
    (fun p => p.components.map Component.name ==
      ["hub$PromisedProxy", "port", "hub", "repo<User>", "optional<User>", "app"])
    (by decide +kernel)
  obtain ⟨h, -⟩ := extensions_are_conservative depot stockedDrafts 0 60 p hp hf depot.extensions
  exact ⟨hf, p, hp, by simpa using hnames, h⟩

end Resolver

end Wiring
