import Wiring.Declaration
import Wiring.TypeExpr.Matching
import Wiring.Universe.Search
/-!
# Specializing templates

A template is specialized for a claim by finding, among the types that its own type reaches, one
that becomes the claimed type when variables are replaced (`unify?`). `instantiate` replaces them
in the whole template. Of several specialized templates, those with exactly the claimed type are
kept, or else those that are no defaults (`narrow`).
-/

namespace Wiring

/-- The substitution for the variables of a type under which it satisfies a claim on `t`, if
there is one. -/
def Universe.unify? (u : Universe) (budget : Nat) (pattern t : TypeExpr) :
    Option (Option Substitution) :=
  u.firstUpward? budget test (pattern :: (u.unwrap? pattern).toList)
where
  /-- Tries one of the types reached. -/
  test (shape : TypeExpr) : Option (Option Substitution) :=
    match shape.matchWith t ∅ with
    | none => some none
    | some s =>
      if pattern.vars.all fun x => s.contains x then do
        let specialized := pattern.substitute s
        if ← u.assignable? budget specialized t then some (some s)
        else if ← u.wrappable? budget specialized t then some (some s)
        else some none
      else some none

namespace Declaration

/-- The template with its variables replaced. -/
def instantiate (d : Declaration) (s : Substitution) : Draft where
  name :=
    let params := if d.typeParams.isEmpty then d.type.vars else d.typeParams
    match (params.filterMap s.get?).map TypeExpr.render with
    | [] => d.name
    | bound => d.name ++ "<" ++ ", ".intercalate bound ++ ">"
  type := d.type.substitute s
  tags := d.tags
  claims := d.claims.map (Claim.substitute s)
  isDefault := d.isDefault
  origin := .templateInstance d.id s

/-- The template specialized for a claim, if its type can satisfy the claim. -/
def specialize? (d : Declaration) (u : Universe) (budget : Nat) (c : Claim) :
    Option (Option Draft) := do
  if c.tags.Accepts d.tags then
    return (← u.unify? budget d.type c.type).map d.instantiate
  else return none

end Declaration

/-- Keeps the better ones of several specialized templates. -/
def Claim.narrow (c : Claim) (drafts : List Draft) : List Draft :=
  match drafts with
  | [] | [_] => drafts
  | _ =>
    match drafts.filter (·.type = c.type) with
    | [] =>
      match drafts.filter fun d => !d.isDefault with
      | [] => drafts
      | others => others
    | exact => exact

/-- The templates specialized for a claim, of which the better ones are kept. -/
def Claim.specializations? (c : Claim) (u : Universe) (budget : Nat)
    (templates : List Declaration) : Option (List Draft) := do
  let found ← templates.mapM fun d => d.specialize? u budget c
  return c.narrow (found.filterMap id)

end Wiring
