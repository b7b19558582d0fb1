import Wiring.Settings.Basic
import Wiring.Value.Fields
/-!
# Settings as values

Settings are a record in which every field may be left out and unknown fields are passed over.
Overrides are a record of the same fields, which may also be null; unknown fields are refused.
-/

namespace Wiring

/-- The fields of hint settings. -/
def HintSettings.fieldNames : List String := ["enabled", "similarity_threshold", "max_suggestions"]

/-- Reads hint settings. -/
def HintSettings.ofValue (d : Dialect) (v : Value) : Except Fault HintSettings :=
  let usual : HintSettings := {}
  v.asRecord d fieldNames <|
    HintSettings.mk <$> .optional "enabled" Value.asBool usual.enabled
      <*> .optional "similarity_threshold" Value.asFloat usual.similarityThreshold
      <*> .optional "max_suggestions" Value.asWord64 usual.maxSuggestions

/-- The fields of settings. -/
def Settings.fieldNames : List String := ["max_rounds", "max_fork_depth", "proxy_tag", "hints"]

/-- Reads settings. -/
def Settings.ofValue (d : Dialect) (v : Value) : Except Fault Settings :=
  let usual : Settings := {}
  v.asRecord d fieldNames <|
    Settings.mk <$> .optional "max_rounds" Value.asWord32 usual.maxRounds
      <*> .optional "max_fork_depth" Value.asWord64 usual.maxForkDepth
      <*> .optional "proxy_tag" Value.asText usual.proxyTag
      <*> .optional "hints" (HintSettings.ofValue d) usual.hints

namespace HintOverrides

/-- The overrides as a record. -/
def toValue (o : HintOverrides) : Value :=
  .record [("enabled", .ofOption .bool o.enabled),
    ("similarity_threshold", .ofOption .float o.similarityThreshold),
    ("max_suggestions", .ofOption .nat o.maxSuggestions)]

/-- Reads overrides. -/
def ofValue (d : Dialect) (v : Value) : Except Fault HintOverrides :=
  v.asClosedRecord d HintSettings.fieldNames <|
    HintOverrides.mk <$> .nullable "enabled" Value.asBool
      <*> .nullable "similarity_threshold" Value.asFloat
      <*> .nullable "max_suggestions" Value.asWord64

end HintOverrides

namespace Overrides

/-- The overrides as a record. -/
def toValue (o : Overrides) : Value :=
  .record [("max_rounds", .ofOption .nat o.maxRounds),
    ("max_fork_depth", .ofOption .nat o.maxForkDepth),
    ("proxy_tag", .ofOption .text o.proxyTag),
    ("hints", .ofOption HintOverrides.toValue o.hints)]

/-- Reads overrides. -/
def ofValue (d : Dialect) (v : Value) : Except Fault Overrides :=
  v.asClosedRecord d Settings.fieldNames <|
    Overrides.mk <$> .nullable "max_rounds" Value.asWord32
      <*> .nullable "max_fork_depth" Value.asWord64
      <*> .nullable "proxy_tag" Value.asText
      <*> .nullable "hints" (HintOverrides.ofValue d)

end Overrides

end Wiring
