import Wiring.Catalog
import Wiring.Plan.Basic
/-!
# The state of a resolution

A `State` holds the catalog, the components that are finished, in the order in which they were,
and a stack of frames: roots that are still to be looked at, and components whose claims are being
satisfied one after the other. The frame that is worked on is on top; the component below it
waits for it.

* `State.push` starts a component, with the interceptors that are to be built before it.
* `State.commit` finishes one.
-/

namespace Wiring

/-- A component that is finished. -/
structure Node where
  /-- Its declaration. -/
  source : Source
  /-- How its claims are satisfied. -/
  edges : List Edge
deriving DecidableEq, Inhabited

/-- A component whose claims are being satisfied. -/
structure ComponentFrame where
  /-- Its declaration. -/
  source : Source
  /-- How the first claims are satisfied. -/
  edges : List Edge := []
  /-- The claims that are still to be satisfied. -/
  pending : List Claim
deriving DecidableEq, Inhabited

namespace ComponentFrame

/-- The frame of a component none of whose claims is satisfied yet. -/
def start (s : Source) : ComponentFrame := { source := s, pending := s.claims }

/-- The frame after its first pending claim is satisfied by an edge. -/
def answer (f : ComponentFrame) (e : Edge) : ComponentFrame :=
  { f with edges := f.edges ++ [e], pending := f.pending.tail }

end ComponentFrame

/-- What is still to be done. -/
inductive Frame where
  /-- To look at a root. -/
  | root (source : Source)
  /-- To finish a component. -/
  | component (frame : ComponentFrame)
deriving DecidableEq, Inhabited

/-- The declaration of the component that the frame is to finish. -/
def Frame.source? : Frame → Option Source
  | .root _ => none
  | .component f => some f.source

/-- The state of a resolution. -/
structure State where
  /-- The declarations. -/
  catalog : Catalog
  /-- The components that are finished, in this order. -/
  resolved : List Node := []
  /-- Positions in `resolved` by provided type name. -/
  index : NameIndex := ∅
  /-- What is still to be done, first things first. -/
  stack : List Frame := []
  /-- The positions of the proxies made, by the type they expose and the identity they stand for. -/
  proxies : List ((TypeExpr × Nat) × Nat) := []
  /-- How deeply forks are nested here. -/
  forkDepth : Nat := 0
deriving DecidableEq, Inhabited

namespace State

/-- The state in which the roots of the catalog are to be looked at in order. -/
def start (c : Catalog) : State := { catalog := c, stack := c.roots.map .root }

/-- The position of the component of an identity, if it is finished. -/
def position? (s : State) (id : Nat) : Option Nat :=
  s.resolved.findIdx? fun n => n.source.id == id

/-- Whether the component of an identity is finished. -/
def isResolved (s : State) (id : Nat) : Bool := (s.position? id).isSome

/-- The components on the stack, the one that is worked on first. -/
def inProgress (s : State) : List Source := s.stack.filterMap Frame.source?

/-- Whether the component of an identity is being worked on. -/
def isInProgress (s : State) (id : Nat) : Bool := s.inProgress.any (·.id == id)

/-- The components on the stack as messages show them, outermost first. -/
def chain (s : State) : List String := s.inProgress.reverse.map (·.render)

/-- The interceptors that are to be built before a component. -/
def wrapping (s : State) (source : Source) : List Source :=
  s.catalog.interceptors.filter fun i =>
    i.id != source.id && source.isInterceptedBy i && !s.isResolved i.id && !s.isInProgress i.id

/-- Starts a component: its frame is put on the stack, and above it those of its interceptors that
are neither finished nor being worked on. -/
def push (s : State) (source : Source) : State :=
  { s with
    stack := ((source :: s.wrapping source).map fun d => .component (.start d)).reverse ++ s.stack }

/-- Finishes a component. -/
def commit (s : State) (source : Source) (edges : List Edge) : State :=
  { s with
    resolved := s.resolved ++ [⟨source, edges⟩]
    index := s.index.file s.resolved.length (s.catalog.providedNames source.id) }

end State

end Wiring
