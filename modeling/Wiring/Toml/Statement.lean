import Wiring.Toml.Quoted
import Wiring.Toml.Scalar
import Wiring.Toml.Table
/-!
# Statements of a TOML document

A document is a list of statements, each on a line of its own: headers, which open a table, and
keys with their values. `Statement.readAll` reads them. Functions take the characters that are
left and give what they read with the rest.
-/

namespace Wiring.Toml

/-- A statement of a document. -/
inductive Statement where
  /-- The header of a table. -/
  | header (path : KeyPath)
  /-- The header of a further table of a list of tables. -/
  | itemHeader (path : KeyPath)
  /-- A key with its value. -/
  | assignment (path : KeyPath) (value : Value)

/-- The characters without the blanks at the front. -/
def skipBlanks (s : List Char) : List Char := s.dropWhile isBlankInLine

/-- Skips a comment after its mark, together with the end of its line. -/
def skipComment : List Char → Except SyntaxError (List Char)
  | [] => .ok []
  | c :: rest =>
    match afterLineEnd? (c :: rest) with
    | some rest => .ok rest
    | none => if isForbidden c then .error (.control c) else skipComment rest

/-- Skips blanks, ends of lines and comments; `inComment` says whether a comment has begun. -/
def skipLines : (inComment : Bool) → List Char → Except SyntaxError (List Char)
  | _, [] => .ok []
  | _, '\n' :: rest => skipLines false rest
  | _, '\r' :: '\n' :: rest => skipLines false rest
  | true, c :: rest => if isForbidden c then .error (.control c) else skipLines true rest
  | false, c :: rest =>
    if c = '#' then skipLines true rest
    else if isBlankInLine c then skipLines false rest
    else .ok (c :: rest)

/-- Skips the rest of a line, which holds no more than a comment. -/
def skipLineEnd (s : List Char) : Except SyntaxError (List Char) :=
  match skipBlanks s with
  | [] => .ok []
  | '#' :: rest => skipComment rest
  | c :: rest =>
    match afterLineEnd? (c :: rest) with
    | some rest => .ok rest
    | none => .error (.unexpected c)

/-- Whether a character may stand in a key without quotation marks. -/
def isBareKeyChar (c : Char) : Bool := c.isAlphanum || c == '_' || c == '-'

/-- Reads one key. -/
def readKey (s : List Char) : Except SyntaxError (String × List Char) :=
  match s with
  | c :: rest =>
    if c = '"' ∨ c = '\'' then Quoted.read { Quoted.formOf c rest with multiline := false } rest
    else
      match s.takeWhile isBareKeyChar with
      | [] => .error (.unexpected c)
      | key => .ok (.ofList key, s.dropWhile isBareKeyChar)
  | [] => .error .endOfText

/-- Reads at most `limit` keys with dots between them. -/
def readKeys : (limit : Nat) → List Char → Except SyntaxError (KeyPath × List Char)
  | 0, _ => .error .nesting
  | limit + 1, s => do
    let (key, rest) ← readKey (skipBlanks s)
    match skipBlanks rest with
    | '.' :: rest =>
      let (path, rest) ← readKeys limit rest
      return (⟨key :: path.parents, path.last⟩, rest)
    | rest => return (⟨[], key⟩, rest)

/-- Reads keys with dots between them. -/
def readKeyPath (s : List Char) : Except SyntaxError (KeyPath × List Char) :=
  readKeys nestingLimit s

mutual

/-- Reads a value, in which lists and tables may be nested as deep as `depth`. -/
def readValue : (fuel depth : Nat) → List Char → Except SyntaxError (Value × List Char)
  | 0, _, s => .error (.atFront s)
  | fuel + 1, depth, s =>
    match s with
    | '[' :: rest =>
      match depth with
      | 0 => .error .nesting
      | depth + 1 => readItems fuel depth [] rest
    | '\x7b' :: rest =>
      match depth with
      | 0 => .error .nesting
      | depth + 1 => readFields fuel depth [] rest
    | c :: rest =>
      if c = '"' ∨ c = '\'' then do
        let (t, rest) ← Quoted.read (Quoted.formOf c rest) rest
        return (.text t, rest)
      else Scalar.read s
    | [] => .error .endOfText

/-- Reads the items of a list after those read before, and its closing bracket. -/
def readItems : (fuel depth : Nat) → List Value → List Char →
    Except SyntaxError (Value × List Char)
  | 0, _, _, s => .error (.atFront s)
  | fuel + 1, depth, before, s => do
    match ← skipLines false s with
    | ']' :: rest => return (.list before, rest)
    | s =>
      let (v, rest) ← readValue fuel depth s
      match ← skipLines false rest with
      | ',' :: rest => readItems fuel depth (before ++ [v]) rest
      | ']' :: rest => return (.list (before ++ [v]), rest)
      | rest => throw (.atFront rest)

/-- Reads the fields of a table within a value after those read before, and its closing brace. A
line may end anywhere but inside a key. -/
def readFields : (fuel depth : Nat) → Table → List Char → Except SyntaxError (Value × List Char)
  | 0, _, _, s => .error (.atFront s)
  | fuel + 1, depth, before, s => do
    match ← skipLines false s with
    | '\x7d' :: rest => return (before.toValue, rest)
    | s =>
      let (path, rest) ← readKeyPath s
      match ← skipLines false rest with
      | '=' :: rest =>
        let (v, rest) ← readValue fuel depth (← skipLines false rest)
        let table ← before.assign path v
        match ← skipLines false rest with
        | ',' :: rest => readFields fuel depth table rest
        | '\x7d' :: rest => return (table.toValue, rest)
        | rest => throw (.atFront rest)
      | rest => throw (.atFront rest)

end

namespace Statement

/-- Reads one statement and the end of its line. -/
def read (fuel : Nat) (s : List Char) : Except SyntaxError (Statement × List Char) :=
  match s with
  | '[' :: '[' :: rest => do
    let (path, rest) ← readKeyPath rest
    match rest with
    | ']' :: ']' :: rest => return (.itemHeader path, ← skipLineEnd rest)
    | rest => throw (.atFront rest)
  | '[' :: rest => do
    let (path, rest) ← readKeyPath rest
    match rest with
    | ']' :: rest => return (.header path, ← skipLineEnd rest)
    | rest => throw (.atFront rest)
  | s => do
    let (path, rest) ← readKeyPath s
    match rest with
    | '=' :: rest =>
      let (v, rest) ← readValue fuel nestingLimit (skipBlanks rest)
      return (.assignment path v, ← skipLineEnd rest)
    | rest => throw (.atFront rest)

/-- Reads all statements after those read before. -/
def readAll : (fuel : Nat) → List Statement → List Char → Except SyntaxError (List Statement)
  | 0, _, s => .error (.atFront s)
  | fuel + 1, before, s => do
    match ← skipLines false s with
    | [] => return before.reverse
    | s =>
      let (statement, rest) ← read (fuel + 1) s
      readAll fuel (statement :: before) rest

end Statement

end Wiring.Toml
