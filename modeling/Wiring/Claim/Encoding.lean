import Wiring.Claim
import Wiring.Value.Fields
/-!
# Claims as values

A claim is a record of its type, its tags unless there are none, and its kind. Reading takes
`required` for a kind left out, and passes over other fields.
-/

namespace Wiring.Claim

/-- The fields of a claim. -/
def fieldNames : List String := ["type", "tags", "kind"]

/-- The claim as a record. -/
def toValue (c : Claim) : Value :=
  .record <|
    [("type", .text c.type.render)] ++
    (if c.tags.isEmpty then [] else [("tags", .texts c.tags.labels)]) ++
    [("kind", .text c.kind.render)]

/-- Reads a claim. -/
def ofValue (d : Dialect) (v : Value) : Except Fault Claim :=
  v.asRecord d fieldNames <|
    Claim.mk <$> .required "type" Value.asType
      <*> .optional "tags" Value.asTags ∅
      <*> .optional "kind" (Value.asWordOf ClaimKind.ofWord? d) .required

end Wiring.Claim
