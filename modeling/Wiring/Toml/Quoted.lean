import Wiring.Toml.Basic
/-!
# Strings in TOML

A string is first cut out of the text between its quotation marks (`Quoted.cut`), and then its
escapes are replaced (`Quoted.unescape`). Literal strings, in apostrophes, have no escapes. Three
marks open and close a string of several lines, which may end in up to two marks of its own; an end
of line right after the opening marks is dropped.
-/

namespace Wiring.Toml.Quoted

/-- The forms of strings. -/
structure Form where
  /-- The quotation mark. -/
  mark : Char
  /-- Whether a backslash starts an escape. -/
  escapes : Bool
  /-- Whether the string may have several lines. -/
  multiline : Bool

/-- Cuts a string on one line out of the text that follows its opening mark. `escaped` says whether
a backslash has just been passed. -/
def cutLine (f : Form) : (escaped : Bool) → List Char → Except SyntaxError (List Char × List Char)
  | _, [] => .error .endOfText
  | escaped, c :: rest => do
    if c = f.mark ∧ !escaped then return ([], rest)
    if isForbidden c then throw (.control c)
    let (inner, rest) ← cutLine f (f.escapes && c = '\\' && !escaped) rest
    return (c :: inner, rest)

/-- Cuts a string of several lines out of the text that follows its opening marks. `marks` marks
have just been passed, and `escaped` says whether a backslash has. -/
def cutLines (f : Form) : (marks : Nat) → (escaped : Bool) → List Char →
    Except SyntaxError (List Char × List Char)
  | marks, _, [] => if 3 ≤ marks then .ok ([], []) else .error .endOfText
  | marks, escaped, c :: rest => do
    if c = f.mark ∧ !escaped ∧ marks < 5 then
      let (inner, rest) ← cutLines f (marks + 1) false rest
      return (c :: inner, rest)
    if 3 ≤ marks then return ([], c :: rest)
    if isForbidden c && (afterLineEnd? (c :: rest)).isNone then throw (.control c)
    let (inner, rest) ← cutLines f 0 (f.escapes && c = '\\' && !escaped) rest
    return (c :: inner, rest)

/-- The value of a hexadecimal digit. -/
def hexValue? (c : Char) : Option Nat :=
  if c.isDigit then some (c.toNat - 48)
  else if 'a' ≤ c ∧ c ≤ 'f' then some (c.toNat - 87)
  else if 'A' ≤ c ∧ c ≤ 'F' then some (c.toNat - 55)
  else none

/-- The character that hexadecimal digits denote. -/
def charOfHex (digits : List Char) : Except SyntaxError Char :=
  match digits.mapM hexValue? with
  | none => .error .escape
  | some ds =>
    let n := ds.foldl (fun n d => 16 * n + d) 0
    if n.isValidChar then .ok (Char.ofNat n) else .error .escape

/-- The characters with the escapes replaced. A backslash at the end of a line removes all blanks
and ends of lines that follow; `trimming` says that these are being removed. -/
def unescape (multiline : Bool) : (trimming : Bool) → List Char → Except SyntaxError (List Char)
  | _, [] => .ok []
  | _, '\\' :: 'x' :: a :: b :: rest => do
    return (← charOfHex [a, b]) :: (← unescape multiline false rest)
  | _, '\\' :: 'u' :: a :: b :: c :: d :: rest => do
    return (← charOfHex [a, b, c, d]) :: (← unescape multiline false rest)
  | _, '\\' :: 'U' :: a :: b :: c :: d :: e :: f :: g :: h :: rest => do
    return (← charOfHex [a, b, c, d, e, f, g, h]) :: (← unescape multiline false rest)
  | _, '\\' :: c :: rest => do
    let plain (c : Char) : Except SyntaxError (List Char) := do
      return c :: (← unescape multiline false rest)
    match c with
    | '"' => plain '"'
    | '\\' => plain '\\'
    | 'b' => plain '\x08'
    | 't' => plain '\t'
    | 'n' => plain '\n'
    | 'f' => plain '\x0c'
    | 'r' => plain '\r'
    | 'e' => plain '\x1b'
    | c =>
      if multiline && (afterLineEnd? ((c :: rest).dropWhile isBlankInLine)).isSome then
        unescape multiline true rest
      else throw .escape
  | trimming, c :: rest => do
    if trimming && (isBlankInLine c || c = '\n' || c = '\r') then unescape multiline true rest
    else return c :: (← unescape multiline false rest)

/-- The string without the three marks that close it. -/
def dropClosing (cut : List Char) : List Char := (cut.reverse.drop 3).reverse

/-- Reads a string after its opening mark, which is the first of three for several lines. -/
def read (f : Form) (s : List Char) : Except SyntaxError (String × List Char) := do
  let (inner, rest) ←
    if f.multiline then do
      let s := s.drop 2
      let (cut, rest) ← cutLines f 0 false ((afterLineEnd? s).getD s)
      pure (dropClosing cut, rest)
    else cutLine f false s
  return (.ofList (← if f.escapes then unescape f.multiline false inner else pure inner), rest)

/-- The form of the string whose first mark is followed by `s`. -/
def formOf (mark : Char) (s : List Char) : Form where
  mark := mark
  escapes := mark = '"'
  multiline := s.take 2 = [mark, mark]

end Wiring.Toml.Quoted
