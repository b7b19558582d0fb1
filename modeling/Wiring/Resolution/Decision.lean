import Wiring.Resolution.Hints
import Wiring.Resolution.Lookup
import Wiring.Resolution.Specialization
/-!
# Satisfying a claim on one instance

`Resolver.decide` says how a claim on one instance is satisfied. What exists comes first: a
finished component, then a declaration, then a template. If there is none, absence satisfies a
nullable claim; an optional wrapper or a final type with a usable constructor is declared on the
fly; and last the extensions are asked. If nothing helps, the claim is unresolved.
-/

namespace Wiring

/-- How a claim on one instance is satisfied. -/
inductive Decision where
  /-- By this edge. -/
  | bind (edge : Edge)
  /-- By the component of a declaration, which is to be built first. -/
  | build (source : Source) (catalog : Catalog)
  /-- By what the catalog now has. -/
  | retry (catalog : Catalog)
  /-- By one of several specialized templates, which are to be tried. -/
  | fork (candidates : List Draft)
  /-- In another round. -/
  | restart (request : RestartRequest)
deriving DecidableEq

namespace Resolver

/-- Declares a draft and builds its component. -/
def buildNew (r : Resolver) (fuel : Nat) (s : State) (d : Draft) :
    Except Interrupt (Option Decision) := do
  let (source, catalog) ← budgeted (s.catalog.registerSource? r.types fuel d)
  return some (.build source catalog)

/-- Satisfies a claim by what is declared. -/
def fromDeclarations (s : State) (requester : Source) (c : Claim) :
    Except Interrupt (Option Decision) := do
  if let some m ← checked ((s.findResolved c).settle c requester Match.source) then
    return some (.bind (.single c m.target))
  if let some d ← checked ((s.findDeclaration c).settle c requester id) then
    match s.position? d.id, d.fit? c with
    | some position, some fit => return some (.bind (.single c (fit.target position)))
    | _, _ => return some (.build d s.catalog)
  return none

/-- Satisfies a claim by a template. -/
def fromTemplates (r : Resolver) (fuel : Nat) (s : State) (c : Claim) :
    Except Interrupt (Option Decision) := do
  match ← budgeted (c.specializations? r.types fuel s.catalog.templates) with
  | [] => return none
  | [draft] => r.buildNew fuel s draft
  | candidates => return some (.fork candidates)

/-- The wrapper of an optional type that takes the inner instance, if there is one. -/
def optionalDraft (c : Claim) (inner : TypeExpr) : Draft where
  name := s!"optional<{inner.render}>"
  type := c.type
  tags := c.tags
  claims := [{ type := inner, tags := c.tags, kind := .nullable }]
  origin := .optional

/-- The declaration of a final type by its constructor. -/
def finalDraft (c : Claim) (a : AutoConstructor) : Draft where
  name := c.type.render
  type := c.type
  tags := a.tags
  claims := a.claims
  origin := .discoveredFinal

/-- Satisfies a claim by absence, or by what is declared on the fly. -/
def fromNothing (r : Resolver) (fuel : Nat) (s : State) (c : Claim) :
    Except Interrupt (Option Decision) :=
  if c.kind.isNullable then .ok (some (.bind (.absent c)))
  else
    match r.types.optionalInner? c.type with
    | some inner => r.buildNew fuel s (optionalDraft c inner)
    | none =>
      match r.types.autoConstructor? c.type with
      | some a => if c.tags.Accepts a.tags then r.buildNew fuel s (finalDraft c a) else .ok none
      | none => .ok none

/-- Whether a draft, once declared, can satisfy a claim. -/
def canSatisfy? (r : Resolver) (fuel : Nat) (d : Draft) (c : Claim) : Option Bool := do
  let candidate := d.declare (UInt32.size - 1)
  if candidate.isTemplate then return (← candidate.specialize? r.types fuel c).isSome
  else return decide ((← Source.ofDeclaration? r.types fuel candidate).Fits c)

/-- Adds a declaration that an extension supplied for a claim, if it can satisfy the claim. -/
def accept (r : Resolver) (fuel : Nat) (s : State) (c : Claim) (extension : String) (d : Draft) :
    Except Interrupt Decision := do
  let d := { d with origin := .extension extension }
  checked d.validate
  if ← budgeted (r.canSatisfy? fuel d c) then
    let (_, catalog) ← budgeted (s.catalog.register? r.types fuel d)
    return .retry catalog
  else
    throw (.failure (.invalidDeclaration d.name
      s!"extension '{extension}' returned a declaration that does not satisfy {c.render}"))

/-- Satisfies a claim by what the extensions answer. -/
def fromExtensions (r : Resolver) (fuel round : Nat) (s : State) (requester : Source) (c : Claim) :
    Except Interrupt (Option Decision) := do
  match ← checked (Extension.consult r.extensions c requester.toDeclaration round) with
  | some ⟨extension, .supply draft⟩ => return some (← r.accept fuel s c extension draft)
  | some ⟨extension, .newRound⟩ =>
    return some (.restart { claim := c, requester := requester.render, extension, round })
  | some ⟨_, .noOpinion⟩ | none => return none

/-- The error about a claim that nothing satisfies. The stack of `s` is what stands below the
requester. -/
def unresolved (r : Resolver) (s : State) (requester : Source) (c : Claim) : Error :=
  .unresolved c.render requester.render (r.hintsFor s.catalog c)
    (s.chain ++ [requester.render]) []

/-- How a claim on one instance is satisfied. -/
def decide (r : Resolver) (fuel round : Nat) (s : State) (requester : Source) (c : Claim) :
    Except Interrupt Decision := do
  if let some d ← fromDeclarations s requester c then return d
  if let some d ← r.fromTemplates fuel s c then return d
  if let some d ← r.fromNothing fuel s c then return d
  if let some d ← r.fromExtensions fuel round s requester c then return d
  throw (.failure (r.unresolved s requester c))

end Resolver

end Wiring
