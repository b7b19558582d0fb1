import Wiring.Universe.Basic
/-!
# Searching the supertypes of a type

Supertypes are visited breadth first, each type once. Generic supertypes may grow without bound,
so a search has a budget: the number of types it may take from its queue. `none` says that the
budget ran out, which is no answer; a larger budget never changes an answer.

* `upward?` collects everything reached from a list of types, in the order of the visits.
* `firstUpward?` stops at the first type visited for which a test finds something.
* `assignable?`, `wrappable?` and `interceptorFor?` are the questions asked about pairs of types.
-/

namespace Wiring.Universe

/-- The types visited from the queue on, after those in `seen`, in the order of the visits. -/
def upwardFrom? (u : Universe) : Nat → (seen queue : List TypeExpr) → Option (List TypeExpr)
  | _, seen, [] => some seen
  | 0, _, _ :: _ => none
  | n + 1, seen, t :: queue =>
    if t ∈ seen then upwardFrom? u n seen queue
    else upwardFrom? u n (seen ++ [t]) (queue ++ u.supertypes t)

/-- Everything reached from the types given, each once, in the order of the visits. -/
def upward? (u : Universe) (budget : Nat) (start : List TypeExpr) : Option (List TypeExpr) :=
  u.upwardFrom? budget [] start

/-- The first thing that `test` finds at a type visited from the queue on. The test may itself run
out of budget. -/
def firstUpwardFrom? (u : Universe) (test : TypeExpr → Option (Option α)) :
    Nat → (seen queue : List TypeExpr) → Option (Option α)
  | _, _, [] => some none
  | 0, _, _ :: _ => none
  | n + 1, seen, t :: queue =>
    if t ∈ seen then firstUpwardFrom? u test n seen queue
    else do
      match ← test t with
      | some found => some (some found)
      | none => firstUpwardFrom? u test n (t :: seen) (queue ++ u.supertypes t)

/-- The first thing that `test` finds at a type reached from the types given. -/
def firstUpward? (u : Universe) (budget : Nat) (test : TypeExpr → Option (Option α))
    (start : List TypeExpr) : Option (Option α) :=
  u.firstUpwardFrom? test budget [] start

/-- Whether a value of type `s` can be used where `t` is expected. -/
def assignable? (u : Universe) (budget : Nat) (s t : TypeExpr) : Option Bool := do
  return (← u.firstUpward? budget (fun r => some (if r = t then some () else none)) [s]).isSome

/-- Whether `s` is a wrapper whose value can be used where `t` is expected. -/
def wrappable? (u : Universe) (budget : Nat) (s t : TypeExpr) : Option Bool :=
  match u.unwrap? s with
  | some inner => u.assignable? budget inner t
  | none => some false

/-- Whether interceptors of type `i` apply to components of type `t`. -/
def interceptorFor? (u : Universe) (budget : Nat) (i t : TypeExpr) : Option Bool :=
  match u.intercepted? i with
  | some target => u.assignable? budget t target
  | none => some false

end Wiring.Universe
