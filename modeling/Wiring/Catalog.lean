import Wiring.NameIndex
import Wiring.Source
/-!
# Catalogs

A `Catalog` gives drafts their identities, counted from zero, and keeps the declarations in the
order in which they came: sources, which can be used as they are, and templates. Sources are
indexed by the names of the types they can be injected as, so a look-up visits only those that
could fit.
-/

namespace Wiring

/-- The declarations of a resolution. -/
structure Catalog where
  /-- The declarations that can be used as they are. -/
  sources : List Source := []
  /-- The declarations that must be specialized first. -/
  templates : List Declaration := []
  /-- Positions in `sources` by provided type name. -/
  index : NameIndex := ∅
  /-- The identity that the next draft receives. -/
  nextId : Nat := 0
deriving DecidableEq, Inhabited

namespace Catalog

/-- The catalog without declarations. -/
def empty : Catalog := {}

instance : EmptyCollection Catalog := ⟨empty⟩

/-- The declaration that the draft becomes in this catalog. -/
def declare (c : Catalog) (d : Draft) : Declaration := d.declare c.nextId

/-- The catalog with one more template. -/
def addTemplate (c : Catalog) (d : Declaration) : Catalog :=
  { c with templates := c.templates ++ [d], nextId := c.nextId + 1 }

/-- The catalog with one more source. -/
def addSource (c : Catalog) (s : Source) : Catalog :=
  { c with
    sources := c.sources ++ [s]
    index := c.index.file c.sources.length s.providedNames
    nextId := c.nextId + 1 }

/-- Files a draft under the next identity, if its supertypes can be listed within the budget. -/
def register? (c : Catalog) (u : Universe) (budget : Nat) (d : Draft) :
    Option (Declaration × Catalog) :=
  let declaration := c.declare d
  if declaration.isTemplate then some (declaration, c.addTemplate declaration)
  else do
    let s ← Source.ofDeclaration? u budget declaration
    return (declaration, c.addSource s)

/-- Files a draft that is about to be resolved, and gives it as a source. -/
def registerSource? (c : Catalog) (u : Universe) (budget : Nat) (d : Draft) :
    Option (Source × Catalog) := do
  let declaration := c.declare d
  let s ← Source.ofDeclaration? u budget declaration
  return (s, if declaration.isTemplate then c.addTemplate declaration else c.addSource s)

/-- The sources that may satisfy a claim on a type of this name, in order. -/
def sourcesProviding (c : Catalog) (name : String) : List Source :=
  (c.index.positions name).filterMap (c.sources[·]?)

/-- The sources that intercept some type, in order. -/
def interceptors (c : Catalog) : List Source := c.sources.filter (·.intercepted.isSome)

/-- The sources that are wanted for their own sake, in order. -/
def roots (c : Catalog) : List Source := c.sources.filter (·.isRoot)

/-- The source of this identity. -/
def source? (c : Catalog) (id : Nat) : Option Source := c.sources.find? (·.id == id)

/-- The names of the types that a source can be injected as; a template provides none. -/
def providedNames (c : Catalog) (id : Nat) : List String :=
  ((c.source? id).map Source.providedNames).getD []

/-- The declaration of this identity. -/
def get? (c : Catalog) (id : Nat) : Option Declaration :=
  ((c.source? id).map Source.toDeclaration) <|> c.templates.find? (·.id == id)

/-- The number of declarations. -/
def size (c : Catalog) : Nat := c.sources.length + c.templates.length

end Catalog

end Wiring
