import Wiring.Declaration
import Wiring.Universe.Search
/-!
# Sources

A `Source` is a declaration together with everything its component can be used as: the types that
its own type reaches, and, for a wrapper, those that the wrapped value's type reaches. With these
at hand every question about the declaration is a look into a list.

* `Source.fit?` says whether and how the component satisfies a claim.
* `Source.providedNames` are the names of the types it can be injected as; a claim on a type of
  another name never fits.
-/

namespace Wiring

/-- How a component's type satisfies the type of a claim. -/
inductive Fit where
  /-- The instance itself is used. -/
  | direct
  /-- The value inside the instance is used. -/
  | unwrapped
deriving DecidableEq, Repr

/-- A declaration with the types that its component can be used as. -/
structure Source extends Declaration where
  /-- What the declared type reaches, itself included. -/
  ownTypes : List TypeExpr
  /-- The type of the wrapped value, if the declared type is a wrapper. -/
  inner : Option TypeExpr
  /-- What the wrapped value's type reaches. -/
  innerTypes : List TypeExpr
  /-- The type that the component intercepts, if it is an interceptor. -/
  intercepted : Option TypeExpr
deriving DecidableEq, Inhabited

namespace Source

/-- The source of a declaration, if its supertypes can be listed within the budget. -/
def ofDeclaration? (u : Universe) (budget : Nat) (d : Declaration) : Option Source := do
  return {
    toDeclaration := d
    ownTypes := ← u.upward? budget [d.type]
    inner := u.unwrap? d.type
    innerTypes := ← u.upward? budget (u.unwrap? d.type).toList
    intercepted := u.intercepted? d.type }

/-- The names of the types that the component can be injected as, ascending. -/
def providedNames (s : Source) : List String :=
  (Tags.ofList ((s.ownTypes ++ s.innerTypes).map TypeExpr.name)).labels

/-- Whether the type is satisfied by the component, and how; the instance itself is preferred. -/
def fitType? (s : Source) (t : TypeExpr) : Option Fit :=
  if t ∈ s.ownTypes then some .direct
  else if t ∈ s.innerTypes then some .unwrapped
  else none

/-- Whether the component satisfies the claim, and how. -/
def fit? (s : Source) (c : Claim) : Option Fit :=
  if c.tags.Accepts s.tags then s.fitType? c.type else none

/-- Whether the component satisfies the claim. -/
def Fits (s : Source) (c : Claim) : Prop := (s.fit? c).isSome

instance (s : Source) (c : Claim) : Decidable (s.Fits c) :=
  inferInstanceAs (Decidable ((s.fit? c).isSome = true))

/-- Whether the type or the wrapped type is exactly the one asked for. -/
def isExact (s : Source) (c : Claim) : Bool := s.type == c.type || s.inner == some c.type

/-- Whether the interceptor `i` applies to components of this declaration. -/
def isInterceptedBy (s i : Source) : Bool :=
  match i.intercepted with
  | some target => s.ownTypes.contains target
  | none => false

end Source

end Wiring
