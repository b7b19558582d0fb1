import Wiring.CommandLine.Style
import Wiring.Plan.Fingerprint
import Wiring.Plan.Graph.Tree
/-!
# Reports for the reader

Plans as a text, with a line for each component and each of its edges, trees of components, and
errors with their advice.
-/

namespace Wiring.CommandLine

/-- An index in brackets. -/
def bracketed (i : Nat) : String := s!"[{i}]"

/-- The component of an index with its name. -/
def mention (p : Plan) (i : Nat) : String :=
  bracketed i ++ " " ++ ((p.components[i]?).map Component.name).getD "?"

/-- An edge as a line shows it. -/
def edgeLine (colours : Bool) (p : Plan) (e : Edge) : String :=
  match e with
  | .reference _ t | .valueOf _ t | .promiseOf _ t => s!"{e.label} → {mention p t.index}"
  | .allOf c ts =>
    s!"all-of {c.type.render} → \x7b" ++
      ", ".intercalate (ts.map fun t => bracketed t.index) ++ "\x7d"
  | .absent c => Style.yellow.paint colours s!"absent {c.type.render}"
  | .typeToken c => s!"type-token {c.type.render}"
  | .proxyParameter _ _ (some i) => s!"proxy ⇢ {mention p i}"
  | .proxyParameter _ _ none => "proxy ⇢ (unbound)"

/-- The lines about a component. -/
def componentLines (colours : Bool) (p : Plan) (c : Component) : List String :=
  let root := if c.isRoot then Style.cyan.paint colours " (root)" else ""
  s!"  {bracketed c.index} {Style.bold.paint colours c.name}: {c.type.render}{root}" ::
    (c.dependencies.map fun e => "      " ++ edgeLine colours p e) ++
    if c.interceptors.isEmpty then []
    else ["      intercepted by " ++ ", ".intercalate (c.interceptors.map bracketed)]

/-- A plan as a text. -/
def planText (colours : Bool) (p : Plan) : String :=
  "\n".intercalate <|
    s!"Resolved {p.size} component(s) in {p.rounds} round(s)" ::
      p.components.flatMap (componentLines colours p) ++
      ["Fingerprint: " ++ Style.dimmed.paint colours p.fingerprint]

/-- The trees of components under a title. -/
def treesText (colours : Bool) (title : String) (p : Plan) (indices : List Nat) : String :=
  Style.bold.paint colours title ++ "\n" ++
    String.join (indices.map (PlanGraph.ofPlan p).renderTree)

/-- An error with its advice. -/
def adviceText (colours : Bool) (a : Advice) : String :=
  Style.boldRed.paint colours "error" ++ ": " ++ a.error.message ++ "\n" ++
  (match a.details with
    | some d => Style.yellow.paint colours "details" ++ ": " ++ d ++ "\n"
    | none => "") ++
  match a.suggestion with
  | some s => Style.green.paint colours "suggestion" ++ ": " ++ s ++ "\n"
  | none => ""

end Wiring.CommandLine
