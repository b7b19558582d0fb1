import Wiring.Claim.Encoding
import Wiring.Universe.Basic
/-!
# The table of types as a value

The table is a record from names to descriptions. A description is a record in which every field
may be left out; unknown fields are passed over.
-/

namespace Wiring

namespace TypeInfo

/-- The fields of a description. -/
def fieldNames : List String :=
  ["kind", "params", "supertypes", "wraps", "intercepts", "optional", "builtin", "constructor",
    "tags"]

/-- The description as a record. -/
def toValue (info : TypeInfo) : Value :=
  .record <|
    [("kind", .text info.kind.render), ("params", .texts info.params),
      ("supertypes", .texts (info.supertypes.map TypeExpr.render)),
      ("wraps", .ofOption (fun t => .text t.render) info.wraps),
      ("intercepts", .ofOption (fun t => .text t.render) info.intercepts),
      ("optional", .bool info.optional), ("builtin", .bool info.builtin),
      ("constructor", .ofOption (fun cs => .list (cs.map Claim.toValue)) info.constructor)] ++
    if info.tags.isEmpty then [] else [("tags", .texts info.tags.labels)]

/-- Reads a description. -/
def ofValue (d : Dialect) (v : Value) : Except Fault TypeInfo :=
  v.asRecord d fieldNames <|
    TypeInfo.mk <$> .optional "kind" (Value.asWordOf TypeKind.ofWord? d) .final
      <*> .optional "params" Value.asTexts []
      <*> .optional "supertypes" (Value.asList Value.asType) []
      <*> .optional "wraps" (Value.asOption Value.asType) none
      <*> .optional "intercepts" (Value.asOption Value.asType) none
      <*> .optional "optional" Value.asBool false
      <*> .optional "builtin" Value.asBool false
      <*> .optional "constructor" (Value.asOption (Value.asList (Claim.ofValue d))) none
      <*> .optional "tags" Value.asTags ∅

end TypeInfo

namespace Universe

/-- The table as a record. -/
def toValue (u : Universe) : Value := .record (u.types.map TypeInfo.toValue).toList

/-- Reads a table. -/
def ofValue (d : Dialect) (v : Value) : Except Fault Universe := do
  return ⟨← v.asMap (TypeInfo.ofValue d)⟩

end Universe

end Wiring
