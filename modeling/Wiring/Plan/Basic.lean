import Wiring.Declaration
/-!
# Construction plans

A `Plan` is the ordered list of components that are built one after the other. A component's
index is its place in that order. Each of its edges says how one claim was satisfied, and all
edges but `Edge.proxyParameter` point to components that are built earlier.
-/

namespace Wiring

/-- A reference to a component of the plan. -/
structure Target where
  /-- The index of the component. -/
  index : Nat
  /-- Whether the value inside the component is used. -/
  unwrap : Bool := false
deriving DecidableEq, Repr, Inhabited

/-- How a claim was satisfied. -/
inductive Edge where
  /-- By an instance, or the value inside it. -/
  | reference (claim : Claim) (target : Target)
  /-- By a live handle to an instance. -/
  | valueOf (claim : Claim) (target : Target)
  /-- By a lazy handle to an instance. -/
  | promiseOf (claim : Claim) (target : Target)
  /-- By the absence of an instance. -/
  | absent (claim : Claim)
  /-- By every matching instance, in the order of the plan. -/
  | allOf (claim : Claim) (targets : List Target)
  /-- By a token of the type. -/
  | typeToken (claim : Claim)
  /-- By the handle with which a proxy waits for the declaration it forwards to. -/
  | proxyParameter (claim : Claim) (declaration : Nat) (target : Option Nat)
deriving DecidableEq, Inhabited

namespace Edge

/-- The edge of a single claim that `target` satisfies, behind the handle that it asks for. -/
def single (c : Claim) (target : Target) : Edge :=
  match c.kind.handle with
  | .plain => .reference c target
  | .value => .valueOf c target
  | .promise => .promiseOf c target

/-- The claim that was satisfied. -/
def claim : Edge → Claim
  | .reference c _ | .valueOf c _ | .promiseOf c _ | .absent c | .allOf c _ | .typeToken c
  | .proxyParameter c _ _ => c

/-- The components that must be built before the owner of the edge. -/
def constructionTargets : Edge → List Nat
  | .reference _ t | .valueOf _ t | .promiseOf _ t => [t.index]
  | .allOf _ ts => ts.map Target.index
  | .absent _ | .typeToken _ | .proxyParameter _ _ _ => []

/-- Whether the edge is the deferred parameter of a proxy. -/
def isProxyParameter : Edge → Bool
  | .proxyParameter _ _ _ => true
  | _ => false

/-- The word for the kind of edge. -/
def label : Edge → String
  | .reference _ t => if t.unwrap then "unwrap" else "ref"
  | .valueOf _ _ => "value-of"
  | .promiseOf _ _ => "promise-of"
  | .absent _ => "absent"
  | .allOf _ _ => "all-of"
  | .typeToken _ => "type-token"
  | .proxyParameter _ _ _ => "proxy"

end Edge

/-- A component of a plan. -/
structure Component where
  /-- The place in the order of construction. -/
  index : Nat
  /-- The name of the declaration. -/
  name : String
  /-- Where the declaration comes from. -/
  origin : Origin
  /-- The type exposed. -/
  type : TypeExpr
  /-- The tags carried. -/
  tags : Tags := ∅
  /-- Whether the component is wanted for its own sake. -/
  isRoot : Bool := false
  /-- How the claims were satisfied, in the order of the claims. -/
  dependencies : List Edge
  /-- The interceptors that wrap the component, in the order of the plan. -/
  interceptors : List Nat := []
deriving DecidableEq, Inhabited

/-- Components in the order of construction. -/
structure Plan where
  /-- The components. -/
  components : List Component := []
  /-- How many rounds it took to find them. -/
  rounds : Nat
deriving DecidableEq, Inhabited

namespace Plan

/-- The number of components. -/
def size (p : Plan) : Nat := p.components.length

/-- The first component of this name. -/
def find? (p : Plan) (name : String) : Option Component := p.components.find? (·.name == name)

/-- The components that are wanted for their own sake. -/
def roots (p : Plan) : List Component := p.components.filter (·.isRoot)

/-- The names in the order of construction. -/
def order (p : Plan) : List String := p.components.map Component.name

end Plan

end Wiring
