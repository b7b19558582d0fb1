import Wiring.Proofs.Resolution.Supplements
import Wiring.Proofs.Resolution.Termination
import Wiring.Resolution.Rounds
/-!
# Rounds differ in their labels

A resolution looks at the number of its round only to tell it to the extensions. If these ignore it
(`Resolver.Timeless`), then a round for the same drafts ends in the same way whatever its number is,
but for the label that its plan or its demand for another round bears (`Resolver.resolve_atRound`).
Nor does a round depend on how many rounds are allowed (`Resolver.withRounds`); only the loop around
it does.
-/

namespace Wiring

/-! ## Labels -/

/-- The same demand, in another round. -/
def RestartRequest.atRound (k : Nat) (q : RestartRequest) : RestartRequest := { q with round := k }

/-- The same decision, in another round. -/
def Decision.atRound (k : Nat) : Decision → Decision
  | .restart q => .restart (q.atRound k)
  | d => d

/-- The same outcome of a step, in another round. -/
def Progress.atRound (k : Nat) : Progress → Progress
  | .restart q => .restart (q.atRound k)
  | p => p

/-- The same end of a run, in another round. -/
def RunEnd.atRound (k : Nat) : RunEnd → RunEnd
  | .restart q => .restart (q.atRound k)
  | e => e

/-- The same exploration, in another round. -/
def Exploration.atRound (k : Nat) : Exploration → Exploration
  | .restart q => .restart (q.atRound k)
  | e => e

/-- The same outcome of a round that has another number. -/
def Resolution.atRound (k : Nat) : Resolution → Resolution
  | .resolved p => .resolved { p with rounds := k + 1 }
  | .restart q => .restart (q.atRound k)

namespace Resolver

/-- The resolver when this many rounds are allowed. -/
def withRounds (r : Resolver) (m : Nat) : Resolver :=
  { r with settings := { r.settings with maxRounds := m } }

/-- No extension looks at the number of the round. -/
def Timeless (r : Resolver) : Prop :=
  ∀ e ∈ r.extensions, ∀ c d k l, e.answer c d k = e.answer c d l

variable {r : Resolver} {n k m : Nat} {goal : Option Claim} {s : State} {q : Source} {c : Claim}
  {drafts : List Draft}

/-! ## One step -/

theorem consult_atRound {es : List Extension} {d : Declaration}
    (h : ∀ e ∈ es, ∀ c d k l, e.answer c d k = e.answer c d l) :
    Extension.consult es c d k = Extension.consult es c d 0 := by
  induction es with
  | nil => rfl
  | cons e es ih =>
    have hes := ih fun e he => h e (List.mem_cons_of_mem _ he)
    rw [Extension.consult, Extension.consult, h e List.mem_cons_self c d k 0]
    cases e.answer c d 0 with
    | error i => rfl
    | ok a =>
      cases a with
      | noOpinion => exact hes
      | supply | newRound => rfl

theorem fromExtensions_atRound (h : r.Timeless) : r.fromExtensions n k s q c =
    (r.fromExtensions n 0 s q c).map (Option.map (Decision.atRound k)) := by
  unfold fromExtensions
  rw [consult_atRound h]
  cases Extension.consult r.extensions c q.toDeclaration 0 with
  | error i => rfl
  | ok o =>
    cases o with
    | none => rfl
    | some o =>
      obtain ⟨name, answer⟩ := o
      cases answer with
      | noOpinion | newRound => rfl
      | supply draft =>
        simp only [checked, bind, Except.bind]
        cases ha : r.accept n s c name draft with
        | error i => rfl
        | ok d =>
          obtain ⟨_, _, rfl, -⟩ := accepted ha
          rfl

theorem atRound_of_direct {d : Decision} (h : Decision.Direct d) : d.atRound k = d := by
  cases h <;> rfl

theorem atRound_of_templates {d : Decision} (h : r.fromTemplates n s c = .ok (some d)) :
    d.atRound k = d := by
  obtain ⟨ds, -, h⟩ := bind_eq_ok.1 h
  split at h
  · cases h
  · exact atRound_of_direct (direct_of_buildNew h)
  · cases h
    rfl

/-- **How a claim is satisfied** does not depend on the round. -/
theorem decide_atRound (h : r.Timeless) : r.decide n k s q c =
    (r.decide n 0 s q c).map (Decision.atRound k) := by
  unfold decide
  rw [fromExtensions_atRound (k := k) h]
  cases h₁ : fromDeclarations s q c with
  | error i => rfl
  | ok d =>
    cases d with
    | some d => exact congrArg Except.ok (atRound_of_direct (direct_of_declarations h₁)).symm
    | none =>
      dsimp only [bind, Except.bind]
      cases h₂ : r.fromTemplates n s c with
      | error i => rfl
      | ok d =>
        cases d with
        | some d => exact congrArg Except.ok (atRound_of_templates h₂).symm
        | none =>
          dsimp only
          cases h₃ : r.fromNothing n s c with
          | error i => rfl
          | ok d =>
            cases d with
            | some d => exact congrArg Except.ok (atRound_of_direct (direct_of_nothing h₃)).symm
            | none =>
              cases r.fromExtensions n 0 s q c with
              | error i => rfl
              | ok d => cases d <;> rfl

theorem advance_atRound {f : ComponentFrame} (h : r.Timeless) :
    (r.withRounds m).advance n k s f c = (r.advance n 0 s f c).map (Progress.atRound k) := by
  have hd : (r.withRounds m).decide n k s f.source c =
      (r.decide n 0 s f.source c).map (Decision.atRound k) := decide_atRound h
  unfold advance
  split
  · rfl
  · split
    · rfl
    · rw [hd]
      cases r.decide n 0 s f.source c with
      | error i => rfl
      | ok d => cases d <;> rfl

/-- **A step** does not depend on the round. -/
theorem step_atRound (h : r.Timeless) : (r.withRounds m).step n k goal s =
    (r.step n 0 goal s).map (Progress.atRound k) := by
  unfold step
  split
  · rfl
  · rfl
  · next f below hs =>
    have hb : (r.withRounds m).breakCycle n { s with stack := below } f.source =
        r.breakCycle n { s with stack := below } f.source := rfl
    dsimp only
    rw [hb]
    cases r.breakCycle n { s with stack := below } f.source with
    | error i => rfl
    | ok o =>
      cases o with
      | some t => rfl
      | none =>
        dsimp only [bind, Except.bind]
        split
        · split <;> rfl
        · exact advance_atRound h

/-! ## Whole rounds -/

theorem explore_atRound {runBranch runBranch' : State → Except Interrupt RunEnd}
    {found : Branches} {candidates : List Draft}
    (hb : ∀ b, runBranch' b = (runBranch b).map (RunEnd.atRound k)) :
    (r.withRounds m).explore n runBranch' s found candidates =
      (r.explore n runBranch s found candidates).map (Exploration.atRound k) := by
  induction candidates generalizing found with
  | nil => rfl
  | cons draft rest ih =>
    have ho : (r.withRounds m).openBranch n s draft = r.openBranch n s draft := rfl
    rw [explore, explore, ho]
    cases r.openBranch n s draft with
    | error i => rfl
    | ok x =>
      dsimp only [bind, Except.bind]
      rw [hb]
      cases runBranch x.2 with
      | ok e =>
        cases e with
        | restart q => rfl
        | finished t | satisfied t => exact ih
      | error i =>
        cases i with
        | outOfFuel => rfl
        | failure e =>
          dsimp only [Except.map]
          split
          · exact ih
          · rfl

/-- **A run** does not depend on the round. -/
theorem run_atRound (h : r.Timeless) : (r.withRounds m).run k n goal s =
    (r.run 0 n goal s).map (RunEnd.atRound k) := by
  induction n generalizing goal s with
  | zero => rfl
  | succ n ih =>
    rw [run, run, step_atRound h]
    cases r.step n 0 goal s with
    | error i => rfl
    | ok p =>
      cases p with
      | finished | satisfied t | restart q => rfl
      | next t => exact ih
      | fork f t =>
        have hl : (r.withRounds m).settings.maxForkDepth = r.settings.maxForkDepth := rfl
        dsimp only [Except.map, Progress.atRound]
        rw [hl, explore_atRound (k := k) fun b => ih]
        split
        · cases r.explore n (r.run 0 n (some f.claim)) t {} f.candidates with
          | error i => rfl
          | ok e =>
            cases e with
            | restart q => rfl
            | explored found =>
              dsimp only [Except.map, Exploration.atRound]
              cases found.settle f t with
              | error e => rfl
              | ok t => exact ih
        · rfl

/-- **A round ends in the same way, whatever its number is** and however many rounds are allowed,
but for its label. -/
theorem resolve_atRound (h : r.Timeless) : (r.withRounds m).resolve n drafts k =
    (r.resolve n drafts 0).map (Resolution.atRound k) := by
  have hc : (r.withRounds m).declareAll n ∅ drafts = r.declareAll n ∅ drafts :=
    declareAll_congr rfl
  unfold resolve
  rw [hc]
  cases r.declareAll n ∅ drafts with
  | error i => rfl
  | ok catalog =>
    dsimp only [bind, Except.bind]
    split
    · rfl
    · rw [run_atRound h]
      cases r.run 0 n none (.start catalog) with
      | error i => rfl
      | ok e => cases e <;> rfl

/-- How many rounds are allowed makes no difference to a single one. -/
theorem resolve_withRounds (h : r.Timeless) :
    (r.withRounds m).resolve n drafts k = r.resolve n drafts k :=
  (resolve_atRound h).trans (resolve_atRound (m := r.settings.maxRounds) h).symm

theorem rounds_of_resolve {p : Plan} (h : r.Timeless)
    (hp : r.resolve n drafts k = .ok (.resolved p)) : p.rounds = k + 1 := by
  rw [← resolve_withRounds (m := 0) h, resolve_atRound h] at hp
  cases hx : r.resolve n drafts 0 with
  | error i =>
    rw [hx] at hp
    cases hp
  | ok x =>
    rw [hx] at hp
    cases x <;> cases hp
    rfl

/-- A demand for another round is repeated when the same drafts are tried in another round. -/
theorem restart_of_resolve {request : RestartRequest} (h : r.Timeless)
    (hq : r.resolve n drafts k = .ok (.restart request)) (l : Nat) :
    r.resolve n drafts l = .ok (.restart (request.atRound l)) := by
  rw [← resolve_withRounds (m := 0) h, resolve_atRound h] at hq ⊢
  cases hx : r.resolve n drafts 0 with
  | error i =>
    rw [hx] at hq
    cases hq
  | ok x =>
    rw [hx] at hq
    cases x <;> cases hq
    rfl

end Resolver

end Wiring
