import Wiring.Proofs.Resolution.Survivor
/-!
# Runs that go alike

Two resolvers can be compared by what they do to states that are related. If a step from related
states leads to related states again, and the branches of a fork begin in related states
(`Resolver.Simulates`), then whole runs end in related states, with all the forks inside them
(`Resolver.Simulates.run`).

Hints are not compared: errors agree if they say the same without them, and without those of the
errors attached to them (`Resolver.Agrees`). This does no harm where branches of a fork fail and
their errors are collected, since which errors are collected depends on their kind alone. The limit
of forks could be hidden there, if a branch that meets it counted as one that failed. It does not:
the limit breaks off all forks around it. So the second resolver may allow deeper forks than the
first, if this is tolerated where the first meets its limit.
-/

namespace Wiring

/-! ## Errors without hints -/

namespace Error

mutual

/-- The error without its hints and those of the errors attached to it. -/
def withoutHints : Error → Error
  | .unresolved claim requester _ chain others =>
    .unresolved claim requester [] chain (withoutHintsAll others)
  | e => e

/-- `withoutHints` on a list of errors. -/
def withoutHintsAll : List Error → List Error
  | [] => []
  | e :: es => withoutHints e :: withoutHintsAll es

end

theorem withoutHintsAll_eq_map (es : List Error) : withoutHintsAll es = es.map withoutHints := by
  induction es with
  | nil => rfl
  | cons e es ih => rw [withoutHintsAll, ih, List.map_cons]

theorem isUnresolved_withoutHints (e : Error) : e.withoutHints.isUnresolved = e.isUnresolved := by
  cases e <;> rfl

theorem withoutHints_withSuppressed (e : Error) (others : List Error) :
    (e.withSuppressed others).withoutHints =
      e.withoutHints.withSuppressed (others.map withoutHints) := by
  cases e with
  | unresolved => simp [withSuppressed, withoutHints, withoutHintsAll_eq_map]
  | _ => rfl

end Error

/-- The interrupt without the hints of its error. -/
def Interrupt.withoutHints : Interrupt → Interrupt
  | .failure e => .failure e.withoutHints
  | .outOfFuel => .outOfFuel

/-! ## Outcomes that agree -/

namespace Resolver

section Agrees

variable {α β γ δ : Type} {L : Prop} {R R' : α → β → Prop} {S : γ → δ → Prop}
  {x : Except Interrupt α} {y : Except Interrupt β}

/-- Both give values that are related by `R`, or fail with the same error but for hints. If `L`
holds, the first may also meet the limit of forks, whatever the second gives. -/
inductive Agrees (L : Prop) (R : α → β → Prop) : Except Interrupt α → Except Interrupt β → Prop
  /-- The first meets the limit. -/
  | limit (h : L) (claim : String) (limit : Nat) (y : Except Interrupt β) :
    Agrees L R (.error (.failure (.forkLimit claim limit))) y
  /-- Both give a value. -/
  | ok {a : α} {b : β} (h : R a b) : Agrees L R (.ok a) (.ok b)
  /-- Both fail. -/
  | failure {e e' : Error} (h : e.withoutHints = e'.withoutHints) :
    Agrees L R (.error (.failure e)) (.error (.failure e'))
  /-- Neither was given enough steps. -/
  | outOfFuel : Agrees L R (.error .outOfFuel) (.error .outOfFuel)

theorem Agrees.error (i : Interrupt) : Agrees L R (.error i) (.error i) := by
  cases i with
  | failure e => exact .failure rfl
  | outOfFuel => exact .outOfFuel

theorem Agrees.refl (x : Except Interrupt α) : Agrees L Eq x x := by
  cases x with
  | ok a => exact .ok rfl
  | error i => exact .error i

/-- What is known of the values may be used to relate them in another way. -/
theorem Agrees.imp (h : Agrees L R x y) (hR : ∀ a b, x = .ok a → y = .ok b → R a b → R' a b) :
    Agrees L R' x y := by
  cases h with
  | limit hL claim limit => exact .limit hL claim limit _
  | ok h => exact .ok (hR _ _ rfl rfl h)
  | failure h => exact .failure h
  | outOfFuel => exact .outOfFuel

theorem Agrees.bind {f : α → Except Interrupt γ} {g : β → Except Interrupt δ} (h : Agrees L R x y)
    (hf : ∀ a b, R a b → Agrees L S (f a) (g b)) : Agrees L S (x >>= f) (y >>= g) := by
  cases h with
  | limit hL claim limit => exact .limit hL claim limit _
  | ok h => exact hf _ _ h
  | failure h => exact .failure h
  | outOfFuel => exact .outOfFuel

/-- Two computations go on in the same way from the same value. -/
theorem agrees_bind (x : Except Interrupt α) {f : α → Except Interrupt γ}
    {g : α → Except Interrupt δ} (hf : ∀ a, Agrees L S (f a) (g a)) :
    Agrees L S (x >>= f) (x >>= g) :=
  (Agrees.refl x).bind fun a _ h => h ▸ hf a

/-- Values that one function relates make the outcomes equal, but for hints. -/
theorem Agrees.mapError_map {f : α → β} (h : Agrees L (f · = ·) x y)
    (hx : L → ∀ claim limit, x ≠ .error (.failure (.forkLimit claim limit))) :
    (x.map f).mapError Interrupt.withoutHints = y.mapError Interrupt.withoutHints := by
  cases h with
  | limit hL claim limit => exact absurd rfl (hx hL claim limit)
  | ok h => simp [Except.map, Except.mapError, h]
  | failure h => simp [Except.map, Except.mapError, Interrupt.withoutHints, h]
  | outOfFuel => rfl

theorem agrees_budgeted {x : Option α} {y : Option β} (h : Option.Rel R x y) :
    Agrees L R (budgeted x) (budgeted y) := by
  cases h with
  | none => exact .outOfFuel
  | some h => exact .ok h

end Agrees

end Resolver

/-! ## Related states in what steps and runs give -/

section Related

variable {R : State → State → Prop} {b b' : Branches} {f f' : Fork} {s s' : State}

/-- The forks try the same candidates for the same claim, and name the same requester. -/
structure Fork.Agree (f f' : Fork) : Prop where
  /-- The claims are the same. -/
  claim : f.claim = f'.claim
  /-- The requesters have the same name. -/
  requester : f.requester.render = f'.requester.render
  /-- The candidates are the same. -/
  candidates : f.candidates = f'.candidates

/-- The steps lead to related states. -/
inductive Progress.Agree (R : State → State → Prop) : Progress → Progress → Prop
  /-- Both lead to a new state. -/
  | next {s t : State} (h : R s t) : Agree R (.next s) (.next t)
  /-- Both lead to a state in which the claim of the fork is satisfied. -/
  | satisfied {s t : State} (h : R s t) : Agree R (.satisfied s) (.satisfied t)
  /-- Both lead to a fork. -/
  | fork {f g : Fork} {s t : State} (hf : f.Agree g) (h : R s t) : Agree R (.fork f s) (.fork g t)
  /-- Both demand the same other round. -/
  | restart (q : RestartRequest) : Agree R (.restart q) (.restart q)
  /-- Both stacks are empty. -/
  | finished : Agree R .finished .finished

/-- The runs end in related states. -/
inductive RunEnd.Agree (R : State → State → Prop) : RunEnd → RunEnd → Prop
  /-- Both stacks are empty. -/
  | finished {s t : State} (h : R s t) : Agree R (.finished s) (.finished t)
  /-- In both the claim of the fork is satisfied. -/
  | satisfied {s t : State} (h : R s t) : Agree R (.satisfied s) (.satisfied t)
  /-- Both demand the same other round. -/
  | restart (q : RestartRequest) : Agree R (.restart q) (.restart q)

/-- The branches led to related states, and failed in the same way but for hints. -/
structure Branches.Agree (R : State → State → Prop) (b b' : Branches) : Prop where
  /-- The same candidates succeed, and lead to related states. -/
  successes : List.Forall₂ (fun x y => x.1 = y.1 ∧ R x.2 y.2) b.successes b'.successes
  /-- The failures are the same, but for hints. -/
  failures : b.failures.map Error.withoutHints = b'.failures.map Error.withoutHints

/-- The explorations end in the same way, but for hints. -/
inductive Exploration.Agree (R : State → State → Prop) : Exploration → Exploration → Prop
  /-- All branches were tried. -/
  | explored {b b' : Branches} (h : b.Agree R b') : Agree R (.explored b) (.explored b')
  /-- A branch demands another round. -/
  | restart (q : RestartRequest) : Agree R (.restart q) (.restart q)

theorem Progress.Agree.refl (p : Progress) : p.Agree Eq p := by
  cases p with
  | next s => exact .next rfl
  | satisfied s => exact .satisfied rfl
  | fork f s => exact .fork ⟨rfl, rfl, rfl⟩ rfl
  | restart q => exact .restart q
  | finished => exact .finished

theorem RunEnd.Agree.eq {e e' : RunEnd} (h : e.Agree Eq e') : e = e' := by
  cases h with
  | finished h | satisfied h => rw [h]
  | restart q => rfl

theorem Branches.names_eq {xs ys : List (String × State)}
    (h : List.Forall₂ (fun x y => x.1 = y.1 ∧ R x.2 y.2) xs ys) : xs.map (·.1) = ys.map (·.1) := by
  induction h with
  | nil => rfl
  | cons h _ ih => rw [List.map_cons, List.map_cons, h.1, ih]

theorem Branches.agree_empty : Branches.Agree R {} {} := ⟨.nil, rfl⟩

theorem Branches.Agree.succeed {name : String} (h : b.Agree R b') (hs : R s s') :
    Branches.Agree R { b with successes := b.successes ++ [(name, s)] }
      { b' with successes := b'.successes ++ [(name, s')] } :=
  ⟨List.rel_append h.successes (.cons ⟨rfl, hs⟩ .nil), h.failures⟩

theorem Branches.Agree.fail {e e' : Error} (h : b.Agree R b')
    (he : e.withoutHints = e'.withoutHints) :
    Branches.Agree R { b with failures := b.failures ++ [e] }
      { b' with failures := b'.failures ++ [e'] } :=
  ⟨h.successes, by simp [h.failures, he]⟩

/-- **The states with which to go on after a fork are related**; if there are none, the errors say
the same but for hints. -/
theorem Branches.Agree.settle (h : b.Agree R b') (hf : f.Agree f') (hc : s.chain = s'.chain)
    (hR : ∀ t t', R t t' →
      R { t with forkDepth := s.forkDepth } { t' with forkDepth := s'.forkDepth }) :
    (∃ t t', b.settle f s = .ok t ∧ b'.settle f' s' = .ok t' ∧ R t t') ∨
      ∃ e e', b.settle f s = .error e ∧ b'.settle f' s' = .error e' ∧
        e.withoutHints = e'.withoutHints := by
  obtain ⟨successes, failures⟩ := b
  obtain ⟨successes', failures'⟩ := b'
  obtain ⟨hs, he⟩ := h
  obtain ⟨hclaim, hrequester, -⟩ := hf
  dsimp only at hs he
  cases hs with
  | cons hx hrest =>
    cases hrest with
    | nil => exact .inl ⟨_, _, rfl, rfl, hR _ _ hx.2⟩
    | cons hy hrest =>
      refine .inr ⟨_, _, rfl, rfl, ?_⟩
      rw [Claim.ambiguity, Claim.ambiguity, hclaim, hrequester,
        Branches.names_eq (.cons hx (.cons hy hrest))]
  | nil =>
    match failures, failures' with
    | [], [] =>
      refine .inr ⟨_, _, rfl, rfl, ?_⟩
      rw [hclaim, hrequester, hc]
    | e :: es, e' :: es' =>
      obtain ⟨he, hes⟩ := List.cons.inj he
      exact .inr ⟨_, _, rfl, rfl, by simp [Error.withoutHints_withSuppressed, he, hes]⟩
    | [], _ :: _ | _ :: _, [] => cases he

end Related

/-! ## Simulation -/

namespace Resolver

/-- What the resolvers do to related states leads to related states. If `L` holds, the second may
allow deeper forks than the first. -/
structure Simulates (L : Prop) (r₁ r₂ : Resolver) (round : Nat) (R : State → State → Prop) :
    Prop where
  /-- Steps lead to related states. -/
  step (n : Nat) (goal : Option Claim) {s t : State} (h : R s t) :
    Agrees L (Progress.Agree R) (r₁.step n round goal s) (r₂.step n round goal t)
  /-- The branches of a fork begin in related states. -/
  openBranch (n : Nat) {s t : State} {f : Fork} {draft : Draft} (h : R s t) (hf : ForksAt r₁ s f)
    (hd : draft ∈ f.candidates) : Agrees L (fun b c => b.1 = c.1 ∧ R b.2 c.2)
      (r₁.openBranch n s draft) (r₂.openBranch n t draft)
  /-- The state of a branch is taken at the depth of the fork. -/
  leave {s t : State} (h : R s t) (k : Nat) : R { s with forkDepth := k } { t with forkDepth := k }
  /-- Related states are at the same depth. -/
  forkDepth {s t : State} (h : R s t) : s.forkDepth = t.forkDepth
  /-- Messages about related states show the same components in progress. -/
  chain {s t : State} (h : R s t) : s.chain = t.chain
  /-- The second allows at least as deep forks. -/
  le : r₁.settings.maxForkDepth ≤ r₂.settings.maxForkDepth
  /-- If it allows deeper ones, this is tolerated. -/
  tolerated (h : r₁.settings.maxForkDepth ≠ r₂.settings.maxForkDepth) : L

variable {L : Prop} {r₁ r₂ : Resolver} {round n : Nat} {R : State → State → Prop}
  {s t : State} {f : Fork} {goal : Option Claim} {found₁ found₂ : Branches}
  {candidates : List Draft}

/-- **The branches of a fork lead to related states, if their runs do.** A branch that meets the
limit does not count as one that failed. -/
theorem Simulates.explore (h : Simulates L r₁ r₂ round R)
    {runBranch₁ runBranch₂ : State → Except Interrupt RunEnd} (hs : R s t) (hf : ForksAt r₁ s f)
    (hc : ∀ d ∈ candidates, d ∈ f.candidates) (hfound : found₁.Agree R found₂)
    (hb : ∀ {b c}, R b c → Agrees L (RunEnd.Agree R) (runBranch₁ b) (runBranch₂ c)) :
    Agrees L (Exploration.Agree R) (r₁.explore n runBranch₁ s found₁ candidates)
      (r₂.explore n runBranch₂ t found₂ candidates) := by
  induction candidates generalizing found₁ found₂ with
  | nil => exact .ok (.explored hfound)
  | cons draft rest ih =>
    have ih {found₁ found₂} := @ih found₁ found₂ fun d hd => hc d (List.mem_cons_of_mem _ hd)
    have ho := h.openBranch n hs hf (hc draft List.mem_cons_self)
    generalize ho₁ : r₁.openBranch n s draft = x₁, ho₂ : r₂.openBranch n t draft = x₂ at ho
    cases ho with
    | limit hL claim limit =>
      rw [Resolver.explore, ho₁]
      exact .limit hL claim limit _
    | failure he =>
      rw [Resolver.explore, Resolver.explore, ho₁, ho₂]
      exact .failure he
    | outOfFuel =>
      rw [Resolver.explore, Resolver.explore, ho₁, ho₂]
      exact .outOfFuel
    | @ok x y hxy =>
      obtain ⟨name, b⟩ := x
      obtain ⟨name', c⟩ := y
      obtain ⟨rfl : name = name', hbc : R b c⟩ := hxy
      have hrun := hb hbc
      generalize he₁ : runBranch₁ b = x₁, he₂ : runBranch₂ c = x₂ at hrun
      cases hrun with
      | limit hL claim limit =>
        rw [explore_of_error ho₁ he₁ (by rintro e ⟨⟩; rfl)]
        exact .limit hL claim limit _
      | outOfFuel =>
        rw [explore_of_error ho₁ he₁ (by rintro e ⟨⟩),
          explore_of_error ho₂ he₂ (by rintro e ⟨⟩)]
        exact .outOfFuel
      | @failure e e' he =>
        have hu : e'.isUnresolved = e.isUnresolved := by
          rw [← e.isUnresolved_withoutHints, he, e'.isUnresolved_withoutHints]
        by_cases heu : e.isUnresolved = true
        · rw [explore_of_failure ho₁ he₁ heu, explore_of_failure ho₂ he₂ (hu.trans heu)]
          exact ih (hfound.fail he)
        · have heu : e.isUnresolved = false := eq_false_of_ne_true heu
          rw [explore_of_error ho₁ he₁ (by rintro e ⟨⟩; exact heu),
            explore_of_error ho₂ he₂ (by rintro e ⟨⟩; exact hu.trans heu)]
          exact .failure he
      | ok he =>
        cases he with
        | restart q =>
          rw [explore_of_restart ho₁ he₁, explore_of_restart ho₂ he₂]
          exact .ok (.restart q)
        | finished ht | satisfied ht =>
          rw [explore_of_success ho₁ he₁ rfl, explore_of_success ho₂ he₂ rfl]
          exact ih (hfound.succeed ht)

/-- **Runs from related states end in related states.** -/
theorem Simulates.run (h : Simulates L r₁ r₂ round R) (n : Nat) (goal : Option Claim) (hs : R s t) :
    Agrees L (RunEnd.Agree R) (r₁.run round n goal s) (r₂.run round n goal t) := by
  induction n generalizing goal s t with
  | zero => exact .outOfFuel
  | succ n ih =>
    unfold Resolver.run
    have hp := h.step n goal hs
    generalize hx₁ : r₁.step n round goal s = x₁, r₂.step n round goal t = x₂ at hp
    cases hp with
    | limit hL claim limit => exact .limit hL claim limit _
    | failure he => exact .failure he
    | outOfFuel => exact .outOfFuel
    | ok hp =>
      cases hp with
      | finished => exact .ok (.finished hs)
      | satisfied ht => exact .ok (.satisfied ht)
      | restart q => exact .ok (.restart q)
      | next ht => exact ih _ ht
      | @fork f g s' t' hf ht =>
        obtain ⟨rfl, hat⟩ := forksAt_of_step hx₁
        dsimp only
        rw [← h.forkDepth ht, ← hf.claim, ← hf.candidates]
        split
        · rename_i hd
          rw [if_pos (hd.trans_le h.le)]
          have he := h.explore (n := n) ht hat (fun _ => id) Branches.agree_empty
            fun hb => ih (some f.claim) hb
          generalize r₁.explore n (r₁.run round n (some f.claim)) s' {} f.candidates = x₁,
            r₂.explore n (r₂.run round n (some f.claim)) t' {} f.candidates = x₂ at he
          cases he with
          | limit hL claim limit => exact .limit hL claim limit _
          | failure he => exact .failure he
          | outOfFuel => exact .outOfFuel
          | ok he =>
            cases he with
            | restart q => exact .ok (.restart q)
            | explored hb =>
              rcases hb.settle hf (h.chain ht) fun u v huv => h.forkDepth ht ▸ h.leave huv _ with
                ⟨u, v, h₁, h₂, huv⟩ | ⟨e, e', h₁, h₂, he⟩
              · simp only [h₁, h₂]
                exact ih _ huv
              · simp only [h₁, h₂]
                exact .failure he
        · by_cases hd : r₁.settings.maxForkDepth = r₂.settings.maxForkDepth
          · rw [← hd, if_neg ‹_›]
            exact .failure rfl
          · exact .limit (h.tolerated hd) _ _ _

end Resolver

end Wiring
