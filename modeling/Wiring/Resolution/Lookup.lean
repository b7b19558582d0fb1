import Wiring.Resolution.State
/-!
# Looking for what satisfies a claim

Proxies are never found. Of several candidates, `pick` takes the only one that is not a default,
or else the only one whose type is exactly the one claimed; if neither exists, the claim is
ambiguous.

* `State.findResolved` looks among the finished components. A default gives way as long as an
  alternative that is not a default is still to be built.
* `State.findDeclaration` looks among all declarations.
* `State.awaited` is a declaration that must be built before a claim on every match is satisfied.
-/

namespace Wiring

/-- The outcome of looking for one candidate. -/
inductive Choice (α : Type u) where
  /-- There is none. -/
  | absent
  /-- This one is taken. -/
  | one (a : α)
  /-- Several are equally good. -/
  | ambiguous (all : List α)
deriving Repr

/-- Takes one of the candidates for a claim; `source` is the declaration of a candidate. -/
def pick (c : Claim) (source : α → Source) (candidates : List α) : Choice α :=
  match candidates with
  | [] => .absent
  | [a] => .one a
  | _ =>
    match candidates.filter fun a => !(source a).isDefault with
    | [a] => .one a
    | _ =>
      match candidates.filter fun a => (source a).isExact c with
      | [a] => .one a
      | _ => .ambiguous candidates

/-- The error about a claim that several declarations satisfy equally well. -/
def Claim.ambiguity (c : Claim) (requester : Source) (candidates : List String) : Error :=
  .ambiguous c.render requester.render candidates

/-- The candidate taken, if there is one. -/
def Choice.settle (c : Claim) (requester : Source) (source : α → Source) :
    Choice α → Except Error (Option α)
  | .absent => .ok none
  | .one a => .ok (some a)
  | .ambiguous all => .error (c.ambiguity requester (all.map fun a => (source a).render))

/-- A finished component that satisfies a claim. -/
structure Match where
  /-- Its position. -/
  position : Nat
  /-- Its declaration. -/
  source : Source
  /-- How it satisfies the claim. -/
  fit : Fit
deriving DecidableEq

/-- The reference to a component that satisfies a claim in this way. -/
def Fit.target (f : Fit) (position : Nat) : Target := ⟨position, f = .unwrapped⟩

/-- The reference to the component. -/
def Match.target (m : Match) : Target := m.fit.target m.position

namespace State

/-- The finished components that satisfy a claim, in order. -/
def resolvedMatches (s : State) (c : Claim) : List Match :=
  (s.index.positions c.type.name).filterMap fun i => do
    let node ← s.resolved[i]?
    if node.source.isProxy then none
    else return ⟨i, node.source, ← node.source.fit? c⟩

/-- The declarations that satisfy a claim, in order. -/
def declaredMatches (s : State) (c : Claim) : List Source :=
  (s.catalog.sourcesProviding c.type.name).filter fun d => !d.isProxy && decide (d.Fits c)

/-- The first declaration that satisfies a claim, is no default and is still to be built. -/
def awaited (s : State) (c : Claim) : Option Source :=
  (s.declaredMatches c).find? fun d => !d.isDefault && !s.isResolved d.id

/-- Looks for a finished component. -/
def findResolved (s : State) (c : Claim) : Choice Match :=
  match pick c Match.source (s.resolvedMatches c) with
  | .one m => if m.source.isDefault && (s.awaited c).isSome then .absent else .one m
  | choice => choice

/-- Looks for a declaration. -/
def findDeclaration (s : State) (c : Claim) : Choice Source := pick c id (s.declaredMatches c)

end State

end Wiring
