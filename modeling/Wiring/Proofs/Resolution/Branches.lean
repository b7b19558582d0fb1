import Wiring.Proofs.Resolution.Ambiguity
import Wiring.Proofs.Resolution.Demand
/-!
# Successful branches of a fork

A branch of a fork stops as soon as a component is finished that satisfies the claim of the fork.
As a rule that is the instance for which the branch is tried. But what the instance needs is
finished before it, and if something of that satisfies the claim, too, then the branch is a success
while its instance is still in progress (`Resolver.success_before_instance`).

* `Resolver.concat_of_run`: a run that is satisfied ends with a component that satisfies its claim.
* `Resolver.instance_is_built_or_overtaken`: the instance of a successful branch is finished, or
  overtaken by such a component. It is not lost then: whatever follows, it stays in progress until
  it is finished, so a plan that comes of the branch has it.
-/

namespace Wiring

namespace Resolver

variable {r : Resolver} {drafts : List Draft} {s t b : State} {c : Claim} {n round : Nat}
  {goal : Option Claim} {f : Fork} {d : Source} {draft : Draft} {name : String} {catalog : Catalog}

/-- **A run that is satisfied ends with a component that satisfies its claim**, and that was not
finished before. -/
theorem concat_of_run (h : r.run round n goal s = .ok (.satisfied t)) :
    ∃ ns m, t.resolved = ns ++ [m] ∧ s.resolved <+: ns ∧ reaches goal m.source = true := by
  refine run_induction (motive := fun goal s e => ∀ t, e = .satisfied t →
    ∃ ns m, t.resolved = ns ++ [m] ∧ s.resolved <+: ns ∧ reaches goal m.source = true)
    ?_ ?_ ?_ ?_ ?_ h t rfl
  · rintro n goal s - t ⟨⟩
  · rintro n goal s t hp t ⟨⟩
    obtain ⟨f, below, hs, hg, rfl⟩ := commit_of_step_satisfied hp
    exact ⟨s.resolved, ⟨f.source, f.edges⟩, rfl, List.prefix_rfl, hg⟩
  · rintro goal s q t ⟨⟩
  · rintro n goal s s' e hp ih t ht
    obtain ⟨ns, m, hm, hns, hg⟩ := ih t ht
    exact ⟨ns, m, hm, (moves_of_step_next hp).grows.resolved.trans hns, hg⟩
  · rintro n goal s s' s'' f found e hp hl he hb hs ih t ht
    obtain ⟨ns, m, hm, hns, hg⟩ := ih t ht
    obtain ⟨rfl, hf⟩ := forksAt_of_step hp
    have hgrow := (moves_of_adopt hf (fun _ _ => moves_of_run) he hs).grows
    exact ⟨ns, m, hm, hgrow.resolved.trans hns, hg⟩

/-- What is declared for the claim of a fork satisfies it. -/
theorem fits_of_registerSource? (hf : ForksAt r s f) (hd : draft ∈ f.candidates)
    (hr : s.catalog.registerSource? r.types n draft = some (d, catalog)) : d.Fits f.claim := by
  obtain ⟨hl, hdecl, -⟩ := Catalog.added_of_registerSource? hr
  refine hl.fits_iff.2 ?_
  rw [hdecl]
  exact (hf.supplied draft hd).satisfies _

/-- What is started stays in progress until it is finished. -/
theorem Moves.inProgress_or_isResolved {id : Nat} (h : Moves r s t)
    (hid : id ∈ Frame.ids s.stack) : t.isResolved id = true ∨ id ∈ Frame.ids t.stack := by
  have hup : t.Upcoming 0 id :=
    h.invariant (fun _ _ h => State.Upcoming.move h (Nat.zero_le _)) (.inl hid)
  exact (State.upcoming_zero_iff.1 hup).symm

/-- What a branch with an instance that is still in progress ends with. -/
theorem exists_overtaking {e : RunEnd} (hb : Reachable r drafts round (some c) b)
    (h : r.run round n (some c) b = .ok e) (ht : e.state? = some t)
    (hd : t.isResolved d.id = false) (hp : d.id ∈ Frame.ids t.stack) :
    ∃ m ∈ t.resolved, b.isResolved m.source.id = false ∧ m.source.Fits c ∧
      m.source.id ≠ d.id := by
  cases e with
  | restart q => cases ht
  | finished t' =>
    cases ht
    rw [stack_of_run_finished h] at hp
    cases hp
  | satisfied t' =>
    cases ht
    obtain ⟨ns, m, hm, hns, hg⟩ := concat_of_run h
    have hmem : m ∈ t.resolved := by simp [hm]
    refine ⟨m, hmem, State.isResolved_eq_false.2 fun x hx hid => ?_, by simpa [reaches] using hg,
      State.isResolved_eq_false.1 hd m hmem⟩
    -- It is the last component, and components have identities of their own.
    have hdist := (hb.run h t rfl).identified.distinct
    rw [hm, List.map_append, List.nodup_append] at hdist
    exact hdist.2.2 _ (List.mem_map_of_mem (hns.mem hx)) _ (by simp) hid

/-- **The instance of a successful branch is built or overtaken.** Each success of a fork has
finished a component that satisfies the claim of the fork. That is the instance for which the branch
was tried, or else another one, and the instance is in progress; and from then on it stays in
progress until it is finished. -/
theorem instance_is_built_or_overtaken (r : Resolver) (drafts : List Draft) (round : Nat)
    (goal : Option Claim) (s s' : State) (fuel : Nat) (f : Fork) (found : Branches)
    (hs : Reachable r drafts round goal s) (h : r.step fuel round goal s = .ok (.fork f s'))
    (hl : s'.forkDepth < r.settings.maxForkDepth)
    (he : r.explore fuel (r.run round fuel (some f.claim)) s' {} f.candidates =
      .ok (.explored found)) :
    ∀ x ∈ found.successes, ∃ draft ∈ f.candidates, ∃ d catalog,
      s'.catalog.registerSource? r.types fuel draft = some (d, catalog) ∧ x.1 = d.render ∧
      (∃ m ∈ x.2.resolved, s'.isResolved m.source.id = false ∧ m.source.Fits f.claim ∧
        (x.2.isResolved d.id = true ∨ m.source.id ≠ d.id ∧ d.id ∈ Frame.ids x.2.stack)) ∧
      ∀ z, Moves r x.2 z → z.isResolved d.id = true ∨ d.id ∈ Frame.ids z.stack := by
  intro x hx
  rcases exists_of_explore he x hx with hx | ⟨draft, hdraft, b, e, ho, hrun, ht⟩
  · cases hx
  have hb : Reachable r drafts round (some f.claim) b := hs.branch h hl hdraft ho
  obtain ⟨⟨d, catalog⟩, hr, ho⟩ := bind_eq_ok.1 ho
  obtain ⟨hname, rfl⟩ := Prod.mk.inj (Except.ok.inj ho)
  obtain ⟨rfl, hf⟩ := forksAt_of_step h
  have hr := budgeted_eq_ok.1 hr
  obtain ⟨-, hdecl, hnew, -⟩ := hs.identified.register hr
  have hstart : d.id ∈ Frame.ids
      (State.push { s' with catalog, forkDepth := s'.forkDepth + 1 } d).stack := by
    simp [State.ids_push]
  have hmoves := moves_of_run hrun x.2 ht
  refine ⟨draft, hdraft, d, catalog, hr, hname.symm, ?_,
    fun z hz => Moves.inProgress_or_isResolved (hmoves.trans hz) hstart⟩
  by_cases hres : x.2.isResolved d.id = true
  · -- The instance itself is new and satisfies the claim.
    obtain ⟨m, hm, hid⟩ := State.isResolved_iff.1 hres
    obtain rfl : m.source = d :=
      (hb.run hrun x.2 ht).identified.source_eq hm (hmoves.grows.catalog.declares hdecl) hid
    exact ⟨m, hm, hnew, fits_of_registerSource? hf hdraft hr, .inl hres⟩
  · have hp := (hmoves.inProgress_or_isResolved hstart).resolve_left hres
    obtain ⟨m, hm, hm', hfit, hne⟩ := exists_overtaking hb hrun ht (eq_false_of_ne_true hres) hp
    exact ⟨m, hm, hm', hfit, .inr ⟨hne, hp⟩⟩

/-! ## Two repositories -/

/-- Whether a step outside forks leads to a fork of some kind. -/
def forksTo (r : Resolver) (n round : Nat) (s : State) (P : Fork → State → Bool) : Bool :=
  match r.step n round none s with
  | .ok (.fork f s') => P f s'
  | _ => false

/-- Whether there is leave to fork, and the branches, once explored, are of some kind. -/
def explores (r : Resolver) (n round : Nat) (P : Fork → State → Branches → Bool) (f : Fork)
    (s : State) : Bool :=
  Decidable.decide (s.forkDepth < r.settings.maxForkDepth) &&
    match r.explore n (r.run round n (some f.claim)) s {} f.candidates with
    | .ok (.explored found) => P f s found
    | _ => false

theorem exists_fork {P : Fork → State → Bool} (h : r.forksTo n round s P = true) :
    ∃ f s', r.step n round none s = .ok (.fork f s') ∧ P f s' = true := by
  unfold forksTo at h
  split at h
  · next f s' hp => exact ⟨f, s', hp, h⟩
  · cases h

theorem exists_explored {P : Fork → State → Branches → Bool}
    (h : r.explores n round P f s = true) :
    s.forkDepth < r.settings.maxForkDepth ∧ ∃ found,
      r.explore n (r.run round n (some f.claim)) s {} f.candidates = .ok (.explored found) ∧
      P f s found = true := by
  obtain ⟨hl, h⟩ := Bool.and_eq_true_iff.1 h
  split at h
  · next found he => exact ⟨of_decide_eq_true hl, found, he, h⟩
  · cases h

/-- Repositories are kept in tables or in memory. A snapshot, which is made on the fly, serves as a
repository of users, too. -/
def repositories : Resolver where
  types.types := .ofList
    [("Memory", { params := ["T"], supertypes := [.named "Repo" [.named "T" []]] }),
     ("Repo", { kind := .interface, params := ["T"] }),
     ("Snapshot", { supertypes := [.named "Repo" [.named "User" []]], constructor := some [] }),
     ("Table", { params := ["T"], supertypes := [.named "Repo" [.named "T" []]] })]

/-- An application needs a repository of users. One in a table needs the claims, one in memory
nothing. -/
def repositoryDrafts (claims : List Claim) : List Draft :=
  [{ name := "app", type := .named "App" [], isRoot := true,
     claims := [{ type := .named "Repo" [.named "User" []] }] },
   { name := "table", type := .named "Table" [.named "T" []], typeParams := ["T"], claims },
   { name := "memory", type := .named "Memory" [.named "T" []], typeParams := ["T"] }]

/-- The claim of a snapshot. -/
def snapshotClaim : Claim where
  type := .named "Snapshot" []

/-- The claim of a connection, which nothing satisfies. -/
def connectionClaim : Claim where
  type := .named "Connection" []

/-- If the table needs a connection, then only the branch in memory succeeds. -/
theorem instance_is_built_or_overtaken_repositories : ∃ s f s' found,
    Reachable repositories (repositoryDrafts [connectionClaim]) 0 none s ∧
    repositories.step 50 0 none s = .ok (.fork f s') ∧
    repositories.explore 50 (repositories.run 0 50 (some f.claim)) s' {} f.candidates =
      .ok (.explored found) ∧ found.successes.length = 1 ∧
    ∀ x ∈ found.successes, ∃ draft ∈ f.candidates, ∃ d catalog,
      s'.catalog.registerSource? repositories.types 50 draft = some (d, catalog) ∧
      x.1 = d.render ∧ (x.2.isResolved d.id = true ∨ d.id ∈ Frame.ids x.2.stack) := by
  obtain ⟨s, hs, h⟩ := exists_reachable repositories 50 (repositoryDrafts [connectionClaim]) 0 1
    (fun s => repositories.forksTo 50 0 s <|
      repositories.explores 50 0 fun _ _ found => found.successes.length == 1)
    (by decide +kernel)
  obtain ⟨f, s', hp, h⟩ := exists_fork h
  obtain ⟨hl, found, he, h⟩ := exists_explored h
  refine ⟨s, f, s', found, hs, hp, he, by simpa using h, fun x hx => ?_⟩
  obtain ⟨draft, hd, d, catalog, hr, hn, -, hz⟩ :=
    instance_is_built_or_overtaken repositories _ 0 none s s' 50 f found hs hp hl he x hx
  exact ⟨draft, hd, d, catalog, hr, hn, hz x.2 .refl⟩

/-- Whether a success comes of the draft, whose instance has the claim and is not finished in it. -/
def leavesUnbuilt (r : Resolver) (n : Nat) (c : Claim) (s : State) (success : String × State)
    (draft : Draft) : Bool :=
  (s.catalog.registerSource? r.types n draft).any fun (d, _) =>
    success.1 == d.render && d.claims.contains c && !success.2.isResolved d.id

/-- If the table needs a snapshot and then a connection, which there is none of, its branch succeeds
with the snapshot, before the table is built. So both branches succeed, and the claim is reported as
ambiguous. -/
theorem success_before_instance :
    (∃ s f s' found, Reachable repositories (repositoryDrafts [snapshotClaim, connectionClaim]) 0
        none s ∧
      repositories.step 50 0 none s = .ok (.fork f s') ∧
      repositories.explore 50 (repositories.run 0 50 (some f.claim)) s' {} f.candidates =
        .ok (.explored found) ∧
      ∃ x ∈ found.successes, ∃ draft ∈ f.candidates, ∃ d catalog,
        s'.catalog.registerSource? repositories.types 50 draft = some (d, catalog) ∧
        x.1 = d.render ∧ connectionClaim ∈ d.claims ∧ x.2.isResolved d.id = false) ∧
    ∃ claim requester names,
      repositories.resolve 50 (repositoryDrafts [snapshotClaim, connectionClaim]) 0 =
        .error (.failure (.ambiguous claim requester names)) := by
  refine ⟨?_, exists_ambiguous (by decide +kernel)⟩
  obtain ⟨s, hs, h⟩ := exists_reachable repositories 50
    (repositoryDrafts [snapshotClaim, connectionClaim]) 0 1
    (fun s => repositories.forksTo 50 0 s <| repositories.explores 50 0 fun f s' found =>
      found.successes.any fun x =>
        f.candidates.any fun draft => leavesUnbuilt repositories 50 connectionClaim s' x draft)
    (by decide +kernel)
  obtain ⟨f, s', hp, h⟩ := exists_fork h
  obtain ⟨-, found, he, h⟩ := exists_explored h
  obtain ⟨x, hx, h⟩ := List.any_eq_true.1 h
  obtain ⟨draft, hd, h⟩ := List.any_eq_true.1 h
  obtain ⟨⟨d, catalog⟩, hr, h⟩ := (Option.any_eq_true _ _).1 h
  simp only [Bool.and_eq_true, beq_iff_eq, List.contains_iff_mem, Bool.not_eq_true'] at h
  exact ⟨s, f, s', found, hs, hp, he, x, hx, draft, hd, d, catalog, hr, h.1.1, h.1.2, h.2⟩

end Resolver

end Wiring
