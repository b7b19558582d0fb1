import Wiring.Extension
import Wiring.ModuleHint
import Wiring.Settings.Basic
import Wiring.TypeExpr.Matching
import Wiring.Universe.Basic
/-!
# Manifests

A `Manifest` declares what a resolution works with: components, the table of types, extensions,
hints, and settings of its own.

An extension of a manifest answers every claim whose type matches its pattern and whose tags its
component fits. It supplies its component at once, or, if the component is generated, asks for a
new round, in which the component is then declared.
-/

namespace Wiring

/-- A component of a manifest. -/
structure ComponentSpec where
  /-- The name shown to the reader. -/
  name : String
  /-- The type exposed. -/
  type : TypeExpr
  /-- The tags carried. -/
  tags : Tags := ∅
  /-- What the component needs, in order. -/
  claims : List Claim := []
  /-- The names that stand for variables. -/
  typeParams : List String := []
  /-- Whether a non-default alternative takes precedence. -/
  isDefault : Bool := false
  /-- Whether the component is wanted for its own sake. -/
  isRoot : Bool := false
  /-- The module whose factory makes the component. -/
  moduleName : Option String := none
deriving DecidableEq, Inhabited

/-- The component as a draft. -/
def ComponentSpec.toDraft (c : ComponentSpec) : Draft where
  name := c.name
  type := c.type
  tags := c.tags
  claims := c.claims
  typeParams := c.typeParams
  isDefault := c.isDefault
  isRoot := c.isRoot
  origin := (c.moduleName.map Origin.factory).getD .annotated

/-- An extension of a manifest. -/
structure ExtensionSpec where
  /-- The name shown to the reader. -/
  name : String
  /-- The claimed types that are answered. -/
  pattern : TypeExpr
  /-- The names that stand for variables of the pattern. -/
  typeParams : List String := []
  /-- Whether the component is generated for the next round. -/
  generate : Bool := false
  /-- The component supplied. -/
  component : ComponentSpec
deriving DecidableEq, Inhabited

namespace ExtensionSpec

/-- The pattern with its variables. -/
def boundPattern (e : ExtensionSpec) : TypeExpr := e.pattern.bind e.typeParams

/-- The component as a draft. -/
def toDraft (e : ExtensionSpec) : Draft := { e.component.toDraft with origin := .extension e.name }

/-- Whether the claim is answered. -/
def answers (e : ExtensionSpec) (c : Claim) : Bool :=
  (e.boundPattern.matchWith c.type ∅).isSome && decide (c.tags.Accepts e.component.tags)

/-- The extension that a resolution can consult. -/
def toExtension (e : ExtensionSpec) : Extension where
  name := e.name
  answer c _ _ :=
    return if !e.answers c then .noOpinion
      else if e.generate then .newRound
      else .supply e.toDraft

end ExtensionSpec

/-- What a resolution works with. -/
structure Manifest where
  /-- Settings of its own. -/
  overrides : Option Overrides := none
  /-- The table of types. -/
  types : Universe := {}
  /-- The components. -/
  components : List ComponentSpec := []
  /-- The extensions. -/
  extensions : List ExtensionSpec := []
  /-- The hints. -/
  hints : List ModuleHint := []
deriving Inhabited

namespace Manifest

/-- Rejects components that are named like an earlier one or cannot be declared. -/
def validateComponents (seen : List String) : List ComponentSpec → Except Error Unit
  | [] => .ok ()
  | c :: cs => do
    if seen.contains c.name then
      throw (.invalidDeclaration c.name "duplicate component name")
    c.toDraft.validate
    validateComponents (c.name :: seen) cs

/-- Rejects extensions that are unnamed, named like an earlier one, or cannot be declared. -/
def validateExtensions (seen : List String) : List ExtensionSpec → Except Error Unit
  | [] => .ok ()
  | e :: es => do
    if isAllBlank e.name || seen.contains e.name then
      throw (.invalidDeclaration e.name "extension names must be unique and non-empty")
    if let some unused := e.typeParams.find? fun p => !e.boundPattern.vars.contains p then
      throw (.invalidDeclaration e.name
        s!"type parameter `{unused}` does not occur in pattern {e.pattern.render}")
    e.toDraft.validate
    validateExtensions (e.name :: seen) es

/-- Rejects a manifest with a component or an extension that cannot be used. -/
def validate (m : Manifest) : Except Error Unit := do
  validateComponents [] m.components
  validateExtensions [] m.extensions

/-- The components as drafts. -/
def drafts (m : Manifest) : List Draft := m.components.map ComponentSpec.toDraft

/-- The extensions that a resolution can consult. -/
def toExtensions (m : Manifest) : List Extension := m.extensions.map ExtensionSpec.toExtension

/-- The settings, with those of the manifest set anew. -/
def settings (m : Manifest) (base : Settings) : Settings :=
  match m.overrides with
  | some o => o.apply base
  | none => base

end Manifest

end Wiring
