import Wiring.Resolution.Basic
import Wiring.Resolution.State
/-!
# Breaking cycles

A component that is started while it is already being worked on closes a cycle through the claim
of the component below it. If one instance of a type is claimed that a proxy can stand for, a
proxy takes the place of the component; else the resolution fails. Proxies are finished at once,
and made once for each type and declaration.
-/

namespace Wiring

/-- What the name of a proxy adds to that of the declaration it stands for. -/
def proxySuffix : String := "$PromisedProxy"

/-- The claim by which a proxy waits for the declaration it stands for. -/
def Source.forwardingClaim (d : Source) : Claim :=
  { type := d.type, tags := d.tags, kind := .promiseOf }

namespace Resolver

/-- The draft of a proxy that stands for a declaration where a type is claimed. -/
def proxyDraft (r : Resolver) (d : Source) (claimed : TypeExpr) : Draft where
  name := d.name ++ proxySuffix
  type := claimed
  tags := .ofList [r.settings.proxyTag]
  claims := [d.forwardingClaim]
  origin := .promisedProxy d.type

/-- The position of the proxy that stands for a declaration where a type is claimed. -/
def proxyFor (r : Resolver) (fuel : Nat) (s : State) (d : Source) (claimed : TypeExpr) :
    Except Interrupt (Nat × State) :=
  match s.proxies.lookup (claimed, d.id) with
  | some position => .ok (position, s)
  | none => do
    let draft := r.proxyDraft d claimed
    let (proxy, catalog) ← budgeted (s.catalog.registerSource? r.types fuel draft)
    let position := s.resolved.length
    let edge := Edge.proxyParameter d.forwardingClaim d.id none
    return (position,
      { { s with catalog }.commit proxy [edge] with
        proxies := ((claimed, d.id), position) :: s.proxies })

/-- The components of the cycle that a component closes, and the component again. -/
def cycleChain (s : State) (d : Source) : List String :=
  (s.inProgress.reverse.dropWhile (·.id != d.id)).map (·.render) ++ [d.render]

/-- Puts a proxy in the place of a component that is already being worked on. The stack of `s` is
what stands below the component's frame. Gives nothing if there is no cycle. -/
def breakCycle (r : Resolver) (fuel : Nat) (s : State) (d : Source) :
    Except Interrupt (Option State) :=
  match s.stack with
  | .component waiting :: below =>
    match waiting.pending with
    | c :: _ =>
      if s.isInProgress d.id then
        if c.kind.isSingle && (r.types.kind c.type).isSubstitutable then do
          let (position, s) ← r.proxyFor fuel s d c.type
          let answered := waiting.answer (.single c ⟨position, false⟩)
          return some { s with stack := .component answered :: below }
        else .error (.failure (.circular c.render (cycleChain s d)))
      else .ok none
    | [] => .ok none
  | _ => .ok none

end Resolver

end Wiring
