import Wiring.NameMap
/-!
# Type expressions

A type expression is a type variable (`T`) or a named type with ordered arguments
(`Repository<User>`). Text alone cannot tell the variable `T` from a type called `T`: the owner's
parameter list decides, through `TypeExpr.bind`.

* `vars` lists the variables in the order of their first occurrence.
* `bind` turns the parameters of an owner into variables, `substitute` replaces variables.
* `render` is the written form.
* `compare` orders expressions: variables first, then by name, then by the arguments.

The functions on arguments lists (`varsAll`, `bindAll`, …) are the same operations argument by
argument; `TypeExpr.ind` is induction on expressions with the arguments as a list.
-/

namespace Wiring

/-- A type expression. -/
inductive TypeExpr where
  /-- A variable of a template. -/
  | var (name : String)
  /-- A named type with its arguments in order. -/
  | named (name : String) (args : List TypeExpr)
deriving Inhabited

/-- What type variables stand for. -/
abbrev Substitution := NameMap TypeExpr

namespace TypeExpr

/-- Induction on type expressions: an expression has a property if its arguments have it. -/
theorem ind {motive : TypeExpr → Prop} (var : ∀ x, motive (.var x))
    (named : ∀ n args, (∀ a ∈ args, motive a) → motive (.named n args)) (t : TypeExpr) :
    motive t :=
  t.rec (motive_2 := fun args => ∀ a ∈ args, motive a) var named
    (fun _ h => nomatch h) fun _ _ hd tl _ hm => by
      rcases List.mem_cons.1 hm with rfl | hm
      · exact hd
      · exact tl _ hm

/-! ## Equality -/

mutual

/-- Equality of type expressions is decided along their structure. -/
def decEq : (s t : TypeExpr) → Decidable (s = t)
  | .var m, .var n =>
    if h : m = n then isTrue (h ▸ rfl) else isFalse fun e => h (TypeExpr.var.inj e)
  | .named m as, .named n bs =>
    if h : m = n then
      match decEqAll as bs with
      | isTrue h' => isTrue (h ▸ h' ▸ rfl)
      | isFalse h' => isFalse fun e => h' (TypeExpr.named.inj e).2
    else isFalse fun e => h (TypeExpr.named.inj e).1
  | .var _, .named _ _ => isFalse fun e => nomatch e
  | .named _ _, .var _ => isFalse fun e => nomatch e

/-- Equality of argument lists. -/
def decEqAll : (ss ts : List TypeExpr) → Decidable (ss = ts)
  | [], [] => isTrue rfl
  | s :: ss, t :: ts =>
    match decEq s t with
    | isTrue h =>
      match decEqAll ss ts with
      | isTrue h' => isTrue (h ▸ h' ▸ rfl)
      | isFalse h' => isFalse fun e => h' (List.cons.inj e).2
    | isFalse h => isFalse fun e => h (List.cons.inj e).1
  | [], _ :: _ => isFalse fun e => nomatch e
  | _ :: _, [] => isFalse fun e => nomatch e

end

instance : DecidableEq TypeExpr := decEq

/-! ## Parts -/

/-- The name of the type or variable, without arguments. -/
def name : TypeExpr → String
  | .var n => n
  | .named n _ => n

/-- The arguments; a variable has none. -/
def args : TypeExpr → List TypeExpr
  | .var _ => []
  | .named _ as => as

/-- Whether the expression is a bare variable. -/
def isVar : TypeExpr → Bool
  | .var _ => true
  | .named _ _ => false

mutual

/-- The variables, each as often as it occurs, from left to right. -/
def varOccurrences : TypeExpr → List String
  | .var n => [n]
  | .named _ as => varOccurrencesAll as

/-- The variable occurrences of a list of arguments. -/
def varOccurrencesAll : List TypeExpr → List String
  | [] => []
  | t :: ts => varOccurrences t ++ varOccurrencesAll ts

end

/-- The variables, in the order of their first occurrence. -/
def vars (t : TypeExpr) : List String := t.varOccurrences.eraseDups

/-- Whether a variable occurs in the expression. -/
def hasVars (t : TypeExpr) : Bool := !t.varOccurrences.isEmpty

/-! ## Variables -/

mutual

/-- Turns the argument-free types named in `params` into variables. -/
def bind (params : List String) : TypeExpr → TypeExpr
  | .var n => .var n
  | .named n [] => if n ∈ params then .var n else .named n []
  | .named n (a :: as) => .named n (bind params a :: bindAll params as)

/-- `bind` on a list of arguments. -/
def bindAll (params : List String) : List TypeExpr → List TypeExpr
  | [] => []
  | t :: ts => bind params t :: bindAll params ts

end

mutual

/-- Replaces variables by what `s` has for them; other variables stay. -/
def substitute (s : Substitution) : TypeExpr → TypeExpr
  | .var n => (s.get? n).getD (.var n)
  | .named n as => .named n (substituteAll s as)

/-- `substitute` on a list of arguments. -/
def substituteAll (s : Substitution) : List TypeExpr → List TypeExpr
  | [] => []
  | t :: ts => substitute s t :: substituteAll s ts

end

/-! ## Writing -/

mutual

/-- The written form: `Map<String, List<T>>`. -/
def render : TypeExpr → String
  | .var n => n
  | .named n [] => n
  | .named n (a :: as) => n ++ "<" ++ render a ++ renderRest as

/-- The arguments after the first, with the closing bracket. -/
def renderRest : List TypeExpr → String
  | [] => ">"
  | t :: ts => ", " ++ render t ++ renderRest ts

end

/-! ## Order -/

mutual

/-- Variables come before named types; then names decide, then the arguments in turn. -/
def cmp : TypeExpr → TypeExpr → Ordering
  | .var m, .var n => compare m n
  | .var _, .named _ _ => .lt
  | .named _ _, .var _ => .gt
  | .named m as, .named n bs => (compare m n).then (cmpAll as bs)

/-- Argument lists are ordered like words. -/
def cmpAll : List TypeExpr → List TypeExpr → Ordering
  | [], [] => .eq
  | [], _ :: _ => .lt
  | _ :: _, [] => .gt
  | s :: ss, t :: ts => (cmp s t).then (cmpAll ss ts)

end

/-- Puts an expression in its place in an ascending list, unless it is there. -/
def insertSorted (t : TypeExpr) : List TypeExpr → List TypeExpr
  | [] => [t]
  | u :: rest =>
    match cmp t u with
    | .lt => t :: u :: rest
    | .eq => u :: rest
    | .gt => u :: insertSorted t rest

/-- The distinct expressions of a list in ascending order. -/
def sortDistinct (ts : List TypeExpr) : List TypeExpr :=
  ts.foldl (fun acc t => insertSorted t acc) []

/-! ## The list versions -/

theorem bindAll_eq_map (params : List String) (ts : List TypeExpr) :
    bindAll params ts = ts.map (bind params) := by
  induction ts with
  | nil => rfl
  | cons t ts ih => simp [bindAll, ih]

theorem substituteAll_eq_map (s : Substitution) (ts : List TypeExpr) :
    substituteAll s ts = ts.map (substitute s) := by
  induction ts with
  | nil => rfl
  | cons t ts ih => simp [substituteAll, ih]

theorem varOccurrencesAll_eq_flatMap (ts : List TypeExpr) :
    varOccurrencesAll ts = ts.flatMap varOccurrences := by
  induction ts with
  | nil => rfl
  | cons t ts ih => simp [varOccurrencesAll, ih]

end TypeExpr

end Wiring
