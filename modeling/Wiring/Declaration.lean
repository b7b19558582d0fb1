import Wiring.Claim
import Wiring.Error
import Wiring.Text.Blank
/-!
# Declarations

A `Draft` describes a producer of a component: the type it exposes, its tags and its claims. A
`Declaration` is a draft that was given an identity, with its type parameters bound in its type
and claims. Two equal drafts that are declared twice are two declarations: identity, and never
the contents, tells declarations apart.

A draft with type parameters or variables is a template.
-/

namespace Wiring

/-- Where a declaration comes from. -/
inductive Origin where
  /-- Found directly. -/
  | annotated
  /-- A factory of a module. -/
  | factory (moduleName : String)
  /-- Supplied by an extension. -/
  | extension (name : String)
  /-- A wrapper made for an optional claim. -/
  | optional
  /-- A forwarding proxy made to break a cycle through `target`. -/
  | promisedProxy (target : TypeExpr)
  /-- A final type declared from its constructor. -/
  | discoveredFinal
  /-- A template specialized for a claim. -/
  | templateInstance (template : Nat) (substitution : Substitution)
deriving DecidableEq, Inhabited

/-- The word for the kind of origin. -/
def Origin.label : Origin → String
  | .annotated => "annotated"
  | .factory _ => "module"
  | .extension _ => "extension"
  | .optional => "optional"
  | .promisedProxy _ => "promised-proxy"
  | .discoveredFinal => "discovered-final"
  | .templateInstance _ _ => "template-instance"

/-- A producer of a component that has no identity yet. -/
structure Draft where
  /-- The name shown to the reader. -/
  name : String
  /-- The type exposed. -/
  type : TypeExpr
  /-- The tags carried. -/
  tags : Tags := ∅
  /-- What the producer needs, in order. -/
  claims : List Claim := []
  /-- The names that stand for variables in the type and the claims. -/
  typeParams : List String := []
  /-- Whether a non-default alternative takes precedence. -/
  isDefault : Bool := false
  /-- Whether the component is wanted for its own sake. -/
  isRoot : Bool := false
  /-- Where the declaration comes from. -/
  origin : Origin := .annotated
deriving DecidableEq, Inhabited

/-- A producer of a component with its identity. -/
structure Declaration extends Draft where
  /-- The identity. -/
  id : Nat
deriving DecidableEq, Inhabited

namespace Draft

/-- Whether the draft must be specialized before use. -/
def isTemplate (d : Draft) : Bool := !d.typeParams.isEmpty || d.type.hasVars

/-- Whether the draft stands for a cycle-breaking proxy. -/
def isProxy (d : Draft) : Bool :=
  match d.origin with
  | .promisedProxy _ => true
  | _ => false

/-- The draft as messages show it: `cache: Cache tags=[redis] (default)`. -/
def render (d : Draft) : String :=
  d.name ++ ": " ++ d.type.render ++
  (if d.tags.isEmpty then "" else " tags=" ++ d.tags.render) ++
  if d.isDefault then " (default)" else ""

/-- The variables that a claim on the draft's type can bind. -/
def exposedVars (d : Draft) : List String := (d.type.bind d.typeParams).vars

/-- The first claim with a variable that the type does not expose, and that variable. -/
def foreignVar? (d : Draft) : Option (Claim × String) :=
  d.claims.findSome? fun c =>
    ((c.type.bind d.typeParams).vars.find? fun x => !d.exposedVars.contains x).map (c, ·)

/-- Rejects a draft without a name, and one with a variable that its type does not expose. -/
def validate (d : Draft) : Except Error Unit :=
  if isAllBlank d.name then
    .error (.invalidDeclaration d.name "declaration name is empty")
  else
    match d.typeParams.find? fun p => !d.exposedVars.contains p, d.foreignVar? with
    | some unused, _ =>
      .error <| .invalidDeclaration d.name
        s!"type parameter `{unused}` does not occur in type {d.type.render}"
    | none, some (claim, x) =>
      .error <| .invalidDeclaration d.name <|
        s!"claim {claim.render} uses type variable `{x}` that " ++
        s!"type {d.type.render} cannot bind"
    | none, none => .ok ()

/-- The declaration of the draft under an identity. -/
def declare (d : Draft) (id : Nat) : Declaration where
  toDraft :=
    { d with
      type := d.type.bind d.typeParams
      claims := d.claims.map (Claim.bind d.typeParams) }
  id := id

end Draft

end Wiring
