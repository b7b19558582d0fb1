import Wiring.Claim.Encoding
import Wiring.Plan.Basic
/-!
# Plans as values

A plan is a record of its components and the number of rounds. Origins and edges are records that
name their kind in the field `kind` or `edge`. Fields with their usual value (no tags, not a root,
no interceptors, nothing unwrapped) are left out; readers pass over unknown fields.
-/

namespace Wiring

/-- The origin as a record. -/
def Origin.toValue : Origin → Value
  | .annotated => .record [("kind", .text "annotated")]
  | .factory m => .record [("kind", .text "module"), ("module", .text m)]
  | .extension e => .record [("kind", .text "extension"), ("extension", .text e)]
  | .optional => .record [("kind", .text "optional")]
  | .promisedProxy t => .record [("kind", .text "promised-proxy"), ("target", .text t.render)]
  | .discoveredFinal => .record [("kind", .text "discovered-final")]
  | .templateInstance id s =>
    .record [("kind", .text "template-instance"), ("template", .nat id),
      ("substitution", .record (s.map fun t => Value.text t.render).toList)]

/-- The fields besides `kind` of an origin of this kind, and how they are read. -/
def Origin.kinds : String → Option (List String × FieldReader Origin)
  | "annotated" => some ([], pure .annotated)
  | "module" => some (["module"], .factory <$> .required "module" Value.asText)
  | "extension" => some (["extension"], .extension <$> .required "extension" Value.asText)
  | "optional" => some ([], pure .optional)
  | "promised-proxy" => some (["target"], .promisedProxy <$> .required "target" Value.asType)
  | "discovered-final" => some ([], pure .discoveredFinal)
  | "template-instance" =>
    some (["template", "substitution"],
      .templateInstance <$> .required "template" Value.asWord32
        <*> .required "substitution" (Value.asMap Value.asType))
  | _ => none

/-- Reads an origin. -/
def Origin.ofValue (v : Value) : Except Fault Origin := v.asTagged "kind" Origin.kinds

/-- The reference as a record. -/
def Target.toValue (t : Target) : Value :=
  .record <| [("index", .nat t.index)] ++ if t.unwrap then [("unwrap", .bool true)] else []

/-- Reads a reference. -/
def Target.ofValue (d : Dialect) (v : Value) : Except Fault Target :=
  v.asRecord d ["index", "unwrap"] <|
    Target.mk <$> .required "index" Value.asWord64 <*> .optional "unwrap" Value.asBool false

/-- The edge as a record. -/
def Edge.toValue : Edge → Value
  | .reference c t =>
    .record [("edge", .text "reference"), ("claim", c.toValue), ("target", t.toValue)]
  | .valueOf c t =>
    .record [("edge", .text "value-of"), ("claim", c.toValue), ("target", t.toValue)]
  | .promiseOf c t =>
    .record [("edge", .text "promise-of"), ("claim", c.toValue), ("target", t.toValue)]
  | .absent c => .record [("edge", .text "absent"), ("claim", c.toValue)]
  | .allOf c ts =>
    .record [("edge", .text "all-of"), ("claim", c.toValue),
      ("targets", .list (ts.map Target.toValue))]
  | .typeToken c => .record [("edge", .text "type-token"), ("claim", c.toValue)]
  | .proxyParameter c d t =>
    .record [("edge", .text "proxy-parameter"), ("claim", c.toValue), ("declaration", .nat d),
      ("target", .ofOption .nat t)]

/-- The fields besides `edge` of an edge of this kind, and how they are read. -/
def Edge.kinds (kind : String) : Option (List String × FieldReader Edge) :=
  let claim : FieldReader Claim := .required "claim" (Claim.ofValue .tagged)
  let target : FieldReader Target := .required "target" (Target.ofValue .tagged)
  match kind with
  | "reference" => some (["claim", "target"], .reference <$> claim <*> target)
  | "value-of" => some (["claim", "target"], .valueOf <$> claim <*> target)
  | "promise-of" => some (["claim", "target"], .promiseOf <$> claim <*> target)
  | "absent" => some (["claim"], .absent <$> claim)
  | "all-of" =>
    some (["claim", "targets"],
      .allOf <$> claim <*> .required "targets" (Value.asList (Target.ofValue .tagged)))
  | "type-token" => some (["claim"], .typeToken <$> claim)
  | "proxy-parameter" =>
    some (["claim", "declaration", "target"],
      .proxyParameter <$> claim <*> .required "declaration" Value.asWord32
        <*> .nullable "target" Value.asWord64)
  | _ => none

/-- Reads an edge. -/
def Edge.ofValue (v : Value) : Except Fault Edge := v.asTagged "edge" Edge.kinds

namespace Component

/-- The fields of a component. -/
def fieldNames : List String :=
  ["index", "name", "origin", "type", "tags", "root", "dependencies", "interceptors"]

/-- The component as a record. -/
def toValue (c : Component) : Value :=
  .record <|
    [("index", .nat c.index), ("name", .text c.name), ("origin", c.origin.toValue),
      ("type", .text c.type.render)] ++
    (if c.tags.isEmpty then [] else [("tags", .texts c.tags.labels)]) ++
    (if c.isRoot then [("root", .bool true)] else []) ++
    [("dependencies", .list (c.dependencies.map Edge.toValue))] ++
    (if c.interceptors.isEmpty then [] else [("interceptors", .list (c.interceptors.map .nat))])

/-- Reads a component. -/
def ofValue (d : Dialect) (v : Value) : Except Fault Component :=
  v.asRecord d fieldNames <|
    Component.mk <$> .required "index" Value.asWord64
      <*> .required "name" Value.asText
      <*> .required "origin" Origin.ofValue
      <*> .required "type" Value.asType
      <*> .optional "tags" Value.asTags ∅
      <*> .optional "root" Value.asBool false
      <*> .required "dependencies" (Value.asList Edge.ofValue)
      <*> .optional "interceptors" (Value.asList Value.asWord64) []

end Component

namespace Plan

/-- The plan as a record. -/
def toValue (p : Plan) : Value :=
  .record [("components", .list (p.components.map Component.toValue)), ("rounds", .nat p.rounds)]

/-- Reads a plan. -/
def ofValue (d : Dialect) (v : Value) : Except Fault Plan :=
  v.asRecord d ["components", "rounds"] <|
    Plan.mk <$> .required "components" (Value.asList (Component.ofValue d))
      <*> .required "rounds" Value.asWord32

end Plan

end Wiring
