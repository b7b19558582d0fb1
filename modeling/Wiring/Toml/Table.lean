import Wiring.Toml.Basic
import Wiring.Value.Basic
/-!
# Tables of a TOML document

A document fills tables in the order of its statements. A `Node` remembers how a table came to be,
because that decides what may still be added: a table with a header has one header only, a table
that dotted keys made is extended by dotted keys only, and values are never extended.

* `Table.define` enters the table of a header.
* `Table.append` enters a further table of a list of tables.
* `Table.assign` gives a value to a key.
-/

namespace Wiring.Toml

/-- The keys of a value inside nested tables. -/
structure KeyPath where
  /-- The keys of the tables around it, outermost first. -/
  parents : List String
  /-- Its own key. -/
  last : String
deriving DecidableEq, Repr

/-- All keys of the path. -/
def KeyPath.keys (p : KeyPath) : List String := p.parents ++ [p.last]

/-- How a table came to be. -/
inductive Definition where
  /-- By its header. -/
  | header
  /-- By the header of a table inside it. -/
  | implied
  /-- By a dotted key. -/
  | dotted
deriving DecidableEq, Repr

/-- What stands under a key. -/
inductive Node where
  /-- A value. -/
  | value (v : Value)
  /-- A table. -/
  | table (definition : Definition) (entries : List (String × Node))
  /-- A list of tables, the current one first. -/
  | tables (items : List (List (String × Node)))

/-- The entries of a table in the order of their keys' first mention. -/
abbrev Table := List (String × Node)

namespace Table

/-- Puts a node under a key that is already there. -/
def replace (k : String) (n : Node) (t : Table) : Table :=
  t.map fun e => if e.1 = k then (k, n) else e

/-- Changes the table that headers name by a path; tables that are missing are implied. -/
def within (f : Table → Except SyntaxError Table) : List String → Table → Except SyntaxError Table
  | [], t => f t
  | k :: path, t =>
    match t.lookup k with
    | none => do return t ++ [(k, .table .implied (← within f path []))]
    | some (.table d inner) => do return t.replace k (.table d (← within f path inner))
    | some (.tables (current :: others)) => do
      return t.replace k (.tables ((← within f path current) :: others))
    | some _ => .error (.key k)

/-- Changes the table that a dotted key names by a path; tables that are missing are made. On its
way the path may enter the current table of a list, but the last table must have been made by dotted
keys. -/
def withinDotted (f : Table → Except SyntaxError Table) :
    List String → Table → Except SyntaxError Table
  | [], t => f t
  | k :: path, t =>
    match t.lookup k with
    | none => do return t ++ [(k, .table .dotted (← withinDotted f path []))]
    | some (.table d inner) =>
      if d = .dotted ∨ (d = .implied ∧ path ≠ []) then do
        return t.replace k (.table d (← withinDotted f path inner))
      else .error (.key k)
    | some (.tables (current :: others)) =>
      if path ≠ [] then do
        return t.replace k (.tables ((← withinDotted f path current) :: others))
      else .error (.key k)
    | some _ => .error (.key k)

/-- Enters the table of a header. -/
def define (p : KeyPath) (t : Table) : Except SyntaxError Table :=
  t.within (fun t =>
    match t.lookup p.last with
    | none => .ok (t ++ [(p.last, .table .header [])])
    | some (.table .implied inner) => .ok (t.replace p.last (.table .header inner))
    | some _ => .error (.key p.last)) p.parents

/-- Enters a further table of a list of tables. -/
def append (p : KeyPath) (t : Table) : Except SyntaxError Table :=
  t.within (fun t =>
    match t.lookup p.last with
    | none => .ok (t ++ [(p.last, .tables [[]])])
    | some (.tables items) => .ok (t.replace p.last (.tables ([] :: items)))
    | some _ => .error (.key p.last)) p.parents

/-- Gives a value to a key. -/
def assign (p : KeyPath) (v : Value) (t : Table) : Except SyntaxError Table :=
  t.withinDotted (fun t =>
    match t.lookup p.last with
    | none => .ok (t ++ [(p.last, .value v)])
    | some _ => .error (.key p.last)) p.parents

end Table

mutual

/-- The value under a key. -/
def Node.toValue : Node → Value
  | .value v => v
  | .table _ entries => .record (NameMap.ofList (Table.fields entries)).toList
  | .tables items => .list (Table.records items).reverse

/-- The entries of a table with their values. -/
def Table.fields : List (String × Node) → List (String × Value)
  | [] => []
  | (k, n) :: rest => (k, n.toValue) :: Table.fields rest

/-- The tables of a list as records. -/
def Table.records : List (List (String × Node)) → List Value
  | [] => []
  | t :: rest => .record (NameMap.ofList (Table.fields t)).toList :: Table.records rest

end

/-- The table as a record. -/
def Table.toValue (t : Table) : Value := .record (NameMap.ofList (Table.fields t)).toList

end Wiring.Toml
