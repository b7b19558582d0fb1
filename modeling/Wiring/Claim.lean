import Wiring.Tags
import Wiring.TypeExpr.Basic
/-!
# Claims

A claim is a consumer's request for a dependency: a type, tags, and a kind that says how many
instances are wanted and behind which handle. `Claim.render` is the form that messages show.
-/

namespace Wiring

/-- Shape and number of what a claim asks for. -/
inductive ClaimKind where
  /-- Exactly one instance. -/
  | required
  /-- One instance or its absence. -/
  | nullable
  /-- A live handle to one instance. -/
  | valueOf
  /-- A live handle or absence. -/
  | nullableValueOf
  /-- A lazy handle to one instance. -/
  | promiseOf
  /-- A lazy handle or absence. -/
  | nullablePromiseOf
  /-- Every matching instance. -/
  | all
  /-- Every matching instance behind a live handle. -/
  | allOfValue
  /-- Every matching instance behind a lazy handle. -/
  | allOfPromise
  /-- No instance, only a token of the type. -/
  | typeRef
deriving DecidableEq, Repr, Inhabited

/-- The handle behind which an instance is passed. -/
inductive Handle where
  /-- The instance itself. -/
  | plain
  /-- A handle that is fetched anew at each use. -/
  | value
  /-- A handle that is dereferenced late. -/
  | promise
deriving DecidableEq, Repr

namespace ClaimKind

/-- Every kind with the word that stands for it. -/
def words : List (ClaimKind × String) :=
  [(.required, "required"), (.nullable, "nullable"), (.valueOf, "value-of"),
   (.nullableValueOf, "nullable-value-of"), (.promiseOf, "promise-of"),
   (.nullablePromiseOf, "nullable-promise-of"), (.all, "all"), (.allOfValue, "all-of-value"),
   (.allOfPromise, "all-of-promise"), (.typeRef, "type-ref")]

/-- The word for the kind. -/
def render : ClaimKind → String
  | .required => "required"
  | .nullable => "nullable"
  | .valueOf => "value-of"
  | .nullableValueOf => "nullable-value-of"
  | .promiseOf => "promise-of"
  | .nullablePromiseOf => "nullable-promise-of"
  | .all => "all"
  | .allOfValue => "all-of-value"
  | .allOfPromise => "all-of-promise"
  | .typeRef => "type-ref"

/-- The kind that a word stands for; `one` is another word for `required`. -/
def ofWord? (word : String) : Option ClaimKind :=
  if word = "one" then some .required
  else (words.find? fun e => e.2 == word).map (·.1)

/-- Single kinds that absence satisfies. -/
def isNullable : ClaimKind → Bool
  | .nullable | .nullableValueOf | .nullablePromiseOf => true
  | _ => false

/-- Kinds that collect every match. -/
def isAll : ClaimKind → Bool
  | .all | .allOfValue | .allOfPromise => true
  | _ => false

/-- Kinds that ask for one instance. -/
def isSingle (k : ClaimKind) : Bool := !k.isAll && k != .typeRef

/-- The handle that a kind asks for. -/
def handle : ClaimKind → Handle
  | .valueOf | .nullableValueOf | .allOfValue => .value
  | .promiseOf | .nullablePromiseOf | .allOfPromise => .promise
  | .required | .nullable | .all | .typeRef => .plain

/-- The kind that asks for the same and also takes absence; collecting kinds stay as they are. -/
def toNullable : ClaimKind → ClaimKind
  | .required => .nullable
  | .valueOf => .nullableValueOf
  | .promiseOf => .nullablePromiseOf
  | k => k

end ClaimKind

/-- A consumer's request for a dependency. -/
structure Claim where
  /-- The type asked for. -/
  type : TypeExpr
  /-- The tags that the component must fit. -/
  tags : Tags := ∅
  /-- How many instances are asked for, and in which shape. -/
  kind : ClaimKind := .required
deriving DecidableEq, Inhabited

namespace Claim

/-- The claim as messages show it: `Db (nullable) tags=[a, b]`. -/
def render (c : Claim) : String :=
  c.type.render ++ " (" ++ c.kind.render ++ ")" ++
    if c.tags.isEmpty then "" else " tags=" ++ c.tags.render

/-- The claim with `params` turned into variables. -/
def bind (params : List String) (c : Claim) : Claim := { c with type := c.type.bind params }

/-- The claim with variables replaced. -/
def substitute (s : Substitution) (c : Claim) : Claim := { c with type := c.type.substitute s }

end Claim

end Wiring
