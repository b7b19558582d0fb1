import Wiring.Toml.Statement
/-!
# TOML documents

`Toml.parse` reads a text as the record of its tables. Lists and tables within a value may be
spread over several lines and may end with a comma. A mark of the byte order at the front is
passed over.
-/

namespace Wiring.Toml

/-- What the statements so far have made. -/
structure Document where
  /-- The outermost table. -/
  root : Table := []
  /-- The keys of the table that was opened last. -/
  opened : List String := []

/-- The document after one more statement. -/
def Document.add (d : Document) : Statement → Except SyntaxError Document
  | .header p => do return { root := ← d.root.define p, opened := p.keys }
  | .itemHeader p => do return { root := ← d.root.append p, opened := p.keys }
  | .assignment p v => do return { d with root := ← d.root.within (Table.assign p v) d.opened }

/-- The characters without a mark of the byte order at the front. -/
def dropByteOrderMark : List Char → List Char
  | '\ufeff' :: rest => rest
  | s => s

/-- Reads a text as a record. -/
def parse (text : String) : Except SyntaxError Value := do
  let s := dropByteOrderMark text.toList
  let statements ← Statement.readAll (s.length + 1) [] s
  let document ← statements.foldlM Document.add {}
  return document.root.toValue

end Wiring.Toml
