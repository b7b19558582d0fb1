import Wiring.Manifest.Basic
import Wiring.Settings.Encoding
import Wiring.Universe.Encoding
/-!
# Manifests as values

A manifest is a record of its parts. Parts that are empty or have their usual value are left out,
the list of components apart. Unknown fields are refused in a manifest, its components and its
extensions, and passed over in hints.
-/

namespace Wiring

namespace ComponentSpec

/-- The fields of a component. -/
def fieldNames : List String :=
  ["name", "type", "tags", "claims", "type_params", "default", "root", "module"]

/-- The component as a record. -/
def toValue (c : ComponentSpec) : Value :=
  .record <|
    [("name", .text c.name), ("type", .text c.type.render)] ++
    (if c.tags.isEmpty then [] else [("tags", .texts c.tags.labels)]) ++
    (if c.claims.isEmpty then [] else [("claims", .list (c.claims.map Claim.toValue))]) ++
    (if c.typeParams.isEmpty then [] else [("type_params", .texts c.typeParams)]) ++
    (if c.isDefault then [("default", .bool true)] else []) ++
    (if c.isRoot then [("root", .bool true)] else []) ++
    match c.moduleName with
    | some m => [("module", .text m)]
    | none => []

/-- Reads a component. -/
def ofValue (d : Dialect) (v : Value) : Except Fault ComponentSpec :=
  v.asClosedRecord d fieldNames <|
    ComponentSpec.mk <$> .required "name" Value.asText
      <*> .required "type" Value.asType
      <*> .optional "tags" Value.asTags ∅
      <*> .optional "claims" (Value.asList (Claim.ofValue d)) []
      <*> .optional "type_params" Value.asTexts []
      <*> .optional "default" Value.asBool false
      <*> .optional "root" Value.asBool false
      <*> .optional "module" (Value.asOption Value.asText) none

end ComponentSpec

namespace ExtensionSpec

/-- The fields of an extension. -/
def fieldNames : List String := ["name", "type", "type_params", "generate", "component"]

/-- The extension as a record. -/
def toValue (e : ExtensionSpec) : Value :=
  .record <|
    [("name", .text e.name), ("type", .text e.pattern.render)] ++
    (if e.typeParams.isEmpty then [] else [("type_params", .texts e.typeParams)]) ++
    (if e.generate then [("generate", .bool true)] else []) ++
    [("component", e.component.toValue)]

/-- Reads an extension. -/
def ofValue (d : Dialect) (v : Value) : Except Fault ExtensionSpec :=
  v.asClosedRecord d fieldNames <|
    ExtensionSpec.mk <$> .required "name" Value.asText
      <*> .required "type" Value.asType
      <*> .optional "type_params" Value.asTexts []
      <*> .optional "generate" Value.asBool false
      <*> .required "component" (ComponentSpec.ofValue d)

end ExtensionSpec

namespace ModuleHint

/-- The hint as a record. -/
def toValue (h : ModuleHint) : Value :=
  .record <|
    [("type", .text h.type.render)] ++
    (if h.tags.isEmpty then [] else [("tags", .texts h.tags.labels)]) ++
    [("message", .text h.message)]

/-- The fields of a hint. -/
def fieldNames : List String := ["type", "tags", "message"]

/-- Reads a hint. -/
def ofValue (d : Dialect) (v : Value) : Except Fault ModuleHint :=
  v.asRecord d fieldNames <|
    ModuleHint.mk <$> .required "type" Value.asType
      <*> .optional "tags" Value.asTags ∅
      <*> .required "message" Value.asText

end ModuleHint

namespace Manifest

/-- The fields of a manifest. -/
def fieldNames : List String := ["resolver", "types", "components", "extensions", "hints"]

/-- The manifest as a record. -/
def toValue (m : Manifest) : Value :=
  .record <|
    (match m.overrides with
      | some o => [("resolver", o.toValue)]
      | none => []) ++
    (if m.types.types.isEmpty then [] else [("types", m.types.toValue)]) ++
    [("components", .list (m.components.map ComponentSpec.toValue))] ++
    (if m.extensions.isEmpty then []
      else [("extensions", .list (m.extensions.map ExtensionSpec.toValue))]) ++
    if m.hints.isEmpty then [] else [("hints", .list (m.hints.map ModuleHint.toValue))]

/-- Reads a manifest. -/
def ofValue (d : Dialect) (v : Value) : Except Fault Manifest :=
  v.asClosedRecord d fieldNames <|
    Manifest.mk <$> .optional "resolver" (Value.asOption (Overrides.ofValue d)) none
      <*> .optional "types" (Universe.ofValue d) {}
      <*> .optional "components" (Value.asList (ComponentSpec.ofValue d)) []
      <*> .optional "extensions" (Value.asList (ExtensionSpec.ofValue d)) []
      <*> .optional "hints" (Value.asList (ModuleHint.ofValue d)) []

end Manifest

end Wiring
