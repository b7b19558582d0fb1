import Wiring.Catalog
import Wiring.Resolution.Basic
import Wiring.Text.Similarity
/-!
# Hints for claims that nothing satisfies

Hints do not change what is resolved. They name components of the claimed type whose tags are
refused, types with similar names, the most similar first, and the messages that were provided for
the claim.
-/

namespace Wiring.Resolver

/-- Hints about components of the claimed type whose tags are refused. -/
def tagHints (catalog : Catalog) (c : Claim) : List String :=
  (catalog.sources.filter fun d =>
    !d.isProxy && !decide (c.tags.Accepts d.tags) && (d.fitType? c.type).isSome).map fun d =>
      s!"Component {d.render} has the requested type but tags {d.tags.render}; " ++
        s!"the claim requires {c.tags.render}"

/-- The names of all types known, except that of the claim, ascending. -/
def otherNames (r : Resolver) (catalog : Catalog) (c : Claim) : List String :=
  let declared := catalog.sources.map (·.type.name) ++ catalog.templates.map (·.type.name)
  (Tags.ofList (r.types.names ++ declared)).labels.filter (· ≠ c.type.name)

/-- Names and grades in descending order of the grades; names of one grade keep their order. -/
def byGrade (graded : List (String × Float)) : List (String × Float) :=
  graded.mergeSort fun a b => b.2 ≤ a.2

/-- The most similar names of types. -/
def nameHints (r : Resolver) (catalog : Catalog) (c : Claim) : List String :=
  let graded := (r.otherNames catalog c).map fun n => (n, Text.similarity c.type.name n)
  let similar := graded.filter fun e => r.settings.hints.similarityThreshold ≤ e.2
  ((byGrade similar).take r.settings.hints.maxSuggestions).map fun e => s!"Did you mean `{e.1}`?"

/-- The hints for a claim. -/
def hintsFor (r : Resolver) (catalog : Catalog) (c : Claim) : List String :=
  if r.settings.hints.enabled then
    tagHints catalog c ++ r.nameHints catalog c ++
      (r.hints.filter (·.Concerns c)).map ModuleHint.message
  else []

end Wiring.Resolver
