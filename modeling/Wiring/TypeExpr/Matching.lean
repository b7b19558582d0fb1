import Wiring.TypeExpr.Basic
/-!
# Matching a pattern against a type

`TypeExpr.matchWith p c s` extends the substitution `s` so that it turns the pattern `p` into `c`,
if that is possible. Variables that `s` already binds must agree with it.
-/

namespace Wiring.TypeExpr

mutual

/-- The least extension of `s` that turns the pattern into the given type, if there is one. -/
def matchWith : TypeExpr → TypeExpr → Substitution → Option Substitution
  | .var x, c, s =>
    match s.get? x with
    | some bound => if bound = c then some s else none
    | none => some (s.insert x c)
  | .named n ps, .named m cs, s => if n = m then matchAll ps cs s else none
  | .named _ _, .var _, _ => none

/-- `matchWith` on argument lists of one length, from left to right. -/
def matchAll : List TypeExpr → List TypeExpr → Substitution → Option Substitution
  | [], [], s => some s
  | p :: ps, c :: cs, s => (matchWith p c s).bind (matchAll ps cs)
  | [], _ :: _, _ => none
  | _ :: _, [], _ => none

end

end Wiring.TypeExpr
