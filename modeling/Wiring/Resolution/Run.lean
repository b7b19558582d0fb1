import Wiring.Resolution.Cycle
import Wiring.Resolution.Decision
/-!
# Running the stack

`Resolver.step` works on the frame on top of the stack. `Resolver.run` repeats it until the stack
is empty or, in a branch of a fork, until a component that satisfies the claim of the fork is
finished.

Where several specialized templates could satisfy a claim, each is tried on a copy of the state.
The state of the only successful branch is taken; more than one success is ambiguous; and if all
branches leave some claim unresolved, the first error is reported with the others attached to it.
-/

namespace Wiring

/-- A claim for which several specialized templates are to be tried. -/
structure Fork where
  /-- The claim. -/
  claim : Claim
  /-- The declaration whose claim it is. -/
  requester : Source
  /-- The specialized templates. -/
  candidates : List Draft
deriving DecidableEq

/-- What one step leads to. -/
inductive Progress where
  /-- To a new state. -/
  | next (s : State)
  /-- To a new state, in which a component satisfies the claim of the fork. -/
  | satisfied (s : State)
  /-- To a fork. -/
  | fork (f : Fork) (s : State)
  /-- To the demand for another round. -/
  | restart (request : RestartRequest)
  /-- Nowhere: the stack is empty. -/
  | finished

/-- How a run ends. -/
inductive RunEnd where
  /-- The stack is empty. -/
  | finished (s : State)
  /-- A component satisfies the claim of the fork. -/
  | satisfied (s : State)
  /-- Another round is demanded. -/
  | restart (request : RestartRequest)

/-- What the branches of a fork led to. -/
structure Branches where
  /-- The successful branches with the specialized template of each. -/
  successes : List (String × State) := []
  /-- The errors of the others. -/
  failures : List Error := []

/-- How the exploration of a fork ends. -/
inductive Exploration where
  /-- All branches were tried. -/
  | explored (b : Branches)
  /-- A branch demands another round. -/
  | restart (request : RestartRequest)

/-- The state with which to go on after a fork. -/
def Branches.settle (b : Branches) (f : Fork) (s : State) : Except Error State :=
  match b.successes with
  | [(_, branch)] => .ok { branch with forkDepth := s.forkDepth }
  | [] =>
    match b.failures with
    | first :: others => .error (first.withSuppressed others)
    | [] => .error (.unresolved f.claim.render f.requester.render [] s.chain [])
  | several => .error (f.claim.ambiguity f.requester (several.map (·.1)))

namespace Resolver

/-- Satisfies a claim on every match. The stack of `s` is what stands below the frame. -/
def collect (s : State) (f : ComponentFrame) (c : Claim) : State :=
  match s.awaited c with
  | some d => { s with stack := .component f :: s.stack }.push d
  | none =>
    let edge := Edge.allOf c ((s.resolvedMatches c).map Match.target)
    { s with stack := .component (f.answer edge) :: s.stack }

/-- Works on a claim of a frame. The stack of `s` is what stands below the frame. -/
def advance (r : Resolver) (fuel round : Nat) (s : State) (f : ComponentFrame) (c : Claim) :
    Except Interrupt Progress :=
  if c.kind.isAll then .ok (.next (collect s f c))
  else if c.kind = .typeRef then
    .ok (.next { s with stack := .component (f.answer (.typeToken c)) :: s.stack })
  else do
    let resumed (catalog : Catalog) : State :=
      { s with catalog, stack := .component f :: s.stack }
    match ← r.decide fuel round s f.source c with
    | .bind edge => return .next { s with stack := .component (f.answer edge) :: s.stack }
    | .build d catalog => return .next ((resumed catalog).push d)
    | .retry catalog => return .next (resumed catalog)
    | .fork candidates => return .fork ⟨c, f.source, candidates⟩ (resumed s.catalog)
    | .restart request => return .restart request

/-- Whether a declaration satisfies the claim of the fork. -/
def reaches (goal : Option Claim) (d : Source) : Bool :=
  goal.any fun c => Decidable.decide (d.Fits c)

/-- Works on the frame on top of the stack. -/
def step (r : Resolver) (fuel round : Nat) (goal : Option Claim) (s : State) :
    Except Interrupt Progress :=
  match s.stack with
  | [] => .ok .finished
  | .root d :: below =>
    let s := { s with stack := below }
    .ok (.next (if s.isResolved d.id then s else s.push d))
  | .component f :: below => do
    let s := { s with stack := below }
    match ← r.breakCycle fuel s f.source with
    | some s => return .next s
    | none =>
      match f.pending with
      | [] =>
        let s := s.commit f.source f.edges
        return if reaches goal f.source then .satisfied s else .next s
      | c :: _ => r.advance fuel round s f c

/-- The name of a branch and the state in which it begins. -/
def openBranch (r : Resolver) (fuel : Nat) (s : State) (candidate : Draft) :
    Except Interrupt (String × State) := do
  let (d, catalog) ← budgeted (s.catalog.registerSource? r.types fuel candidate)
  return (d.render, { s with catalog, forkDepth := s.forkDepth + 1 }.push d)

/-- Tries the candidates of a fork one after the other, each on its own copy of the state. -/
def explore (r : Resolver) (fuel : Nat) (runBranch : State → Except Interrupt RunEnd)
    (s : State) : Branches → List Draft → Except Interrupt Exploration
  | found, [] => .ok (.explored found)
  | found, candidate :: rest => do
    let (name, branch) ← r.openBranch fuel s candidate
    match runBranch branch with
    | .ok (.restart request) => return .restart request
    | .ok (.finished reached) | .ok (.satisfied reached) =>
      let found := { found with successes := found.successes ++ [(name, reached)] }
      explore r fuel runBranch s found rest
    | .error (.failure e) =>
      if e.isUnresolved then
        let found := { found with failures := found.failures ++ [e] }
        explore r fuel runBranch s found rest
      else throw (.failure e)
    | .error .outOfFuel => throw .outOfFuel

/-- Runs the stack. The number of steps is limited by `fuel`, and so is each search for what a
type reaches. -/
def run (r : Resolver) (round : Nat) : (fuel : Nat) → Option Claim → State →
    Except Interrupt RunEnd
  | 0, _, _ => .error .outOfFuel
  | fuel + 1, goal, s =>
    match r.step fuel round goal s with
    | .error e => .error e
    | .ok .finished => .ok (.finished s)
    | .ok (.satisfied s) => .ok (.satisfied s)
    | .ok (.restart request) => .ok (.restart request)
    | .ok (.next s) => run r round fuel goal s
    | .ok (.fork f s) =>
      if s.forkDepth < r.settings.maxForkDepth then
        match r.explore fuel (run r round fuel (some f.claim)) s {} f.candidates with
        | .error e => .error e
        | .ok (.restart request) => .ok (.restart request)
        | .ok (.explored branches) =>
          match branches.settle f s with
          | .ok s => run r round fuel goal s
          | .error e => .error (.failure e)
      else .error (.failure (.forkLimit f.claim.render r.settings.maxForkDepth))

end Resolver

end Wiring
