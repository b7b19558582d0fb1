import Wiring.Plan.Graph.Basic
/-!
# Dependency trees as text

`PlanGraph.renderTree` writes a component with its dependencies below it, indented, depth first.
A component that was written before is marked `(shown above)` and not expanded again; below a
depth of 256 dependencies are cut off with `(truncated)`.
-/

namespace Wiring.PlanGraph

/-- The depth at which dependencies are cut off. -/
def maxTreeDepth : Nat := 256

/-- A component that waits to be written. -/
structure TreeEntry where
  /-- The component index. -/
  index : Nat
  /-- What stands before the connector. -/
  indent : String
  /-- Whether it is the last of its siblings. -/
  isLast : Bool
  /-- The number of components above it. -/
  depth : Nat

namespace TreeEntry

/-- What joins the entry to the line above it. -/
def connector (e : TreeEntry) : String := if e.isLast then "└── " else "├── "

/-- What stands before the connectors of the entries below this one. -/
def childIndent (e : TreeEntry) : String := e.indent ++ if e.isLast then "    " else "│   "

/-- The entries below this one. -/
def children (e : TreeEntry) : List Nat → List TreeEntry
  | [] => []
  | [d] => [⟨d, e.childIndent, true, e.depth + 1⟩]
  | d :: ds => ⟨d, e.childIndent, false, e.depth + 1⟩ :: e.children ds

/-- The line of the entry. -/
def line (g : PlanGraph) (e : TreeEntry) : String :=
  s!"{e.indent}{e.connector}[{e.index}] {g.label e.index}\n"

/-- A remark in the place of the entries below this one. -/
def remark (e : TreeEntry) (text : String) : String := s!"{e.childIndent}└── ({text})\n"

end TreeEntry

/-- The lines of the entries, of which those with an index among `unseen` are expanded. -/
def treeLines (g : PlanGraph) (unseen : List Nat) : List TreeEntry → List String
  | [] => []
  | e :: entries =>
    e.line g ::
    if e.index ∈ unseen then
      let rest := unseen.erase e.index
      let deps := g.directDeps e.index
      if deps.isEmpty then g.treeLines rest entries
      else if e.depth < maxTreeDepth then g.treeLines rest (e.children deps ++ entries)
      else e.remark "truncated" :: g.treeLines rest entries
    else e.remark "shown above" :: g.treeLines unseen entries
termination_by entries => (unseen.length, entries.length)
decreasing_by
  · exact Prod.Lex.left _ _ (length_erase_lt ‹_›)
  · exact Prod.Lex.left _ _ (length_erase_lt ‹_›)
  · exact Prod.Lex.left _ _ (length_erase_lt ‹_›)
  · exact Prod.Lex.right _ (by simp)

/-- The tree below a component; empty if there is none. -/
def renderTree (g : PlanGraph) (index : Nat) : String :=
  if index < g.size then
    String.join (g.treeLines (index :: g.weights).eraseDups [⟨index, "", true, 0⟩])
  else ""

end Wiring.PlanGraph
