import Wiring.Claim
/-!
# The table of types

A `Universe` describes types by name: how far they can be extended, their direct supertypes, what
they wrap or intercept, and how a final type is constructed. Descriptions of generic types speak
of their own parameters, which a query replaces by the arguments of the type asked about. A type
without a description is final and has no supertypes.

`Universe.Step` is the relation between a type and its direct supertypes, `Universe.Reaches` its
reflexive and transitive closure; the search for what a type reaches is in
`Wiring.Universe.Search`.
-/

namespace Wiring

/-- How far a type can be extended. -/
inductive TypeKind where
  /-- An interface. -/
  | interface
  /-- A class that may be extended. -/
  | extensible
  /-- A class that must be extended. -/
  | abstract
  /-- A class that cannot be extended. -/
  | final
deriving DecidableEq, Repr, Inhabited

/-- Whether a proxy can stand for an instance of the type. -/
def TypeKind.isSubstitutable : TypeKind → Bool
  | .final => false
  | _ => true

/-- The word for the kind. -/
def TypeKind.render : TypeKind → String
  | .interface => "interface"
  | .extensible => "open"
  | .abstract => "abstract"
  | .final => "final"

/-- The kind that a word stands for. -/
def TypeKind.ofWord? : String → Option TypeKind
  | "interface" => some .interface
  | "open" => some .extensible
  | "abstract" => some .abstract
  | "final" => some .final
  | _ => none

/-- The description of a named type. -/
structure TypeInfo where
  /-- How far the type can be extended. -/
  kind : TypeKind := .final
  /-- The names of the parameters, in the order of the arguments. -/
  params : List String := []
  /-- The direct supertypes, over the parameters. -/
  supertypes : List TypeExpr := []
  /-- The type of the wrapped value, if the type is a wrapper. -/
  wraps : Option TypeExpr := none
  /-- The type decorated, if the type is an interceptor. -/
  intercepts : Option TypeExpr := none
  /-- Whether the type is the optional wrapper of its only argument. -/
  optional : Bool := false
  /-- Whether instances are never declared on the fly. -/
  builtin : Bool := false
  /-- What the only usable constructor needs. -/
  constructor : Option (List Claim) := none
  /-- The tags of instances declared on the fly. -/
  tags : Tags := ∅
deriving DecidableEq, Inhabited

namespace TypeInfo

/-- What the parameters stand for in `t`; nothing, if the numbers differ. -/
def argumentsOf (info : TypeInfo) (t : TypeExpr) : Substitution :=
  if t.args.length = info.params.length then .ofList (info.params.zip t.args) else ∅

/-- The part `part` of the description, as it is for the type `t`. -/
def instantiate (info : TypeInfo) (part t : TypeExpr) : TypeExpr :=
  (part.bind info.params).substitute (info.argumentsOf t)

end TypeInfo

/-- Descriptions of types by name. -/
structure Universe where
  /-- The descriptions. -/
  types : NameMap TypeInfo := ∅
deriving DecidableEq, Inhabited

/-- How a final type is declared on the fly. -/
structure AutoConstructor where
  /-- What the constructor needs. -/
  claims : List Claim
  /-- The tags of the instance. -/
  tags : Tags
deriving DecidableEq

namespace Universe

/-- The description of a type; a variable has none. -/
def info? (u : Universe) : TypeExpr → Option TypeInfo
  | .var _ => none
  | .named n _ => u.types.get? n

/-- How far the type can be extended. -/
def kind (u : Universe) (t : TypeExpr) : TypeKind :=
  match u.info? t with
  | some info => info.kind
  | none => .final

/-- The direct supertypes. -/
def supertypes (u : Universe) (t : TypeExpr) : List TypeExpr :=
  match u.info? t with
  | some info => info.supertypes.map (info.instantiate · t)
  | none => []

/-- The type of the value inside a wrapper. -/
def unwrap? (u : Universe) (t : TypeExpr) : Option TypeExpr := do
  let info ← u.info? t
  return info.instantiate (← info.wraps) t

/-- The type that an interceptor decorates. -/
def intercepted? (u : Universe) (t : TypeExpr) : Option TypeExpr := do
  let info ← u.info? t
  return info.instantiate (← info.intercepts) t

/-- The inner type of the optional wrapper. -/
def optionalInner? (u : Universe) (t : TypeExpr) : Option TypeExpr := do
  let info ← u.info? t
  match t.args with
  | [inner] => if info.optional then some inner else none
  | _ => none

/-- How an instance of a final type without parameters is declared on the fly. -/
def autoConstructor? (u : Universe) (t : TypeExpr) : Option AutoConstructor := do
  let info ← u.info? t
  if info.kind = .final ∧ !info.builtin ∧ info.params = [] ∧ t.args = [] then
    return { claims := ← info.constructor, tags := info.tags }
  else none

/-- The names described, in ascending order. -/
def names (u : Universe) : List String := u.types.keys

/-- `s` is a direct supertype of `t`. -/
def Step (u : Universe) (t s : TypeExpr) : Prop := s ∈ u.supertypes t

/-- `s` is reached from `t` by zero or more steps to a direct supertype. -/
inductive Reaches (u : Universe) : TypeExpr → TypeExpr → Prop where
  /-- A type reaches itself. -/
  | refl (t : TypeExpr) : Reaches u t t
  /-- A type reaches what its direct supertypes reach. -/
  | step {t r s : TypeExpr} : u.Step t r → Reaches u r s → Reaches u t s

end Universe

end Wiring
