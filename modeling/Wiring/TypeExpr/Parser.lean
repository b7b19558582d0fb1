import Wiring.Text.Alphanumeric
import Wiring.Text.Blank
import Wiring.TypeExpr.Basic
/-!
# Reading type expressions

A type is a name, optionally followed by arguments in angle brackets with commas between them;
white space may stand around every name and sign. Names consist of alphanumeric characters and
`_ . $`, and their dots are single and inside.

The text is first cut into lexemes (`Lexeme.scan`), each with its byte offset, which drops the
white space. `TypeExpr.Reading.next` then takes one lexeme after the other, with a stack of the
types whose argument lists are still open. `TypeExpr.parse` reads a text.
-/

namespace Wiring

/-- A name or a sign of a written type, with the byte offset at which it starts. -/
inductive Lexeme where
  /-- A run of name characters. -/
  | name (offset : Nat) (chars : List Char)
  /-- Any other visible character. -/
  | sign (offset : Nat) (c : Char)
deriving DecidableEq, Repr

namespace Lexeme

/-- Whether the character may stand in a type name. -/
def isNameChar (c : Char) : Bool := isAlphanumeric c || c == '_' || c == '.' || c == '$'

/-- Where the lexeme starts, in bytes. -/
def offset : Lexeme → Nat
  | .name o _ => o
  | .sign o _ => o

/-- The first character. -/
def firstChar : Lexeme → Char
  | .name _ cs => cs.headD ' '
  | .sign _ c => c

/-- Puts a name character in front of lexemes, where it joins a name that starts right after it. -/
def consNameChar (offset : Nat) (c : Char) : List Lexeme → List Lexeme
  | .name o cs :: rest =>
    if o = offset + c.utf8Size then .name offset (c :: cs) :: rest
    else .name offset [c] :: .name o cs :: rest
  | ls => .name offset [c] :: ls

/-- The lexemes of a text that starts at byte `offset`. -/
def scan (offset : Nat) : List Char → List Lexeme
  | [] => []
  | c :: cs =>
    if isBlank c then scan (offset + c.utf8Size) cs
    else if isNameChar c then consNameChar offset c (scan (offset + c.utf8Size) cs)
    else .sign offset c :: scan (offset + c.utf8Size) cs

end Lexeme

namespace TypeExpr

/-- Why a text is not a type expression. -/
inductive SyntaxError where
  /-- The text ends where a name should stand. -/
  | nameMissing
  /-- Another character stands where a name should. -/
  | nameExpected (offset : Nat) (found : Char)
  /-- The dots of the name are not single and inside. -/
  | malformedName (name : String)
  /-- An argument is followed neither by a comma nor by a closing bracket. -/
  | separatorExpected (offset : Nat) (found : Char)
  /-- The text ends inside an argument list. -/
  | unclosed
  /-- Something follows the type. -/
  | unexpected (offset : Nat) (found : Char)
deriving DecidableEq, Repr

/-- The reason in words. -/
def SyntaxError.reason : SyntaxError → String
  | .nameMissing => "expected type name"
  | .nameExpected o c => s!"expected type name at offset {o}, found '{c}'"
  | .malformedName n => s!"malformed qualified name '{n}'"
  | .separatorExpected o c => s!"expected ',' or '>' at offset {o}, found '{c}'"
  | .unclosed => "unclosed '<'"
  | .unexpected o c => s!"unexpected '{c}' at offset {o}"

/-- Whether the dots of a name are single, and neither its first nor its last character. -/
def isWellDotted : List Char → Bool
  | [] => true
  | '.' :: _ => false
  | c :: cs => go c cs
where
  /-- The characters after `c`. -/
  go (c : Char) : List Char → Bool
    | [] => c != '.'
    | d :: ds => !(c == '.' && d == '.') && go d ds

/-- The types whose argument lists are open, innermost first, with the arguments read so far. -/
abbrev OpenTypes := List (String × List TypeExpr)

/-- How far a text has been read. -/
inductive Reading where
  /-- A type must start next. -/
  | start (stack : OpenTypes)
  /-- A name was read, which a bracket may follow. -/
  | named (name : String) (stack : OpenTypes)
  /-- A type with arguments was closed. -/
  | closed (t : TypeExpr) (stack : OpenTypes)

namespace Reading

/-- Reads the lexeme after the whole type `t`. -/
def afterType (t : TypeExpr) : OpenTypes → Lexeme → Except SyntaxError Reading
  | [], l => .error (.unexpected l.offset l.firstChar)
  | (n, args) :: outer, l =>
    if l.firstChar = ',' then .ok (.start ((n, args ++ [t]) :: outer))
    else if l.firstChar = '>' then .ok (.closed (.named n (args ++ [t])) outer)
    else .error (.separatorExpected l.offset l.firstChar)

/-- Reads one lexeme. -/
def next : Reading → Lexeme → Except SyntaxError Reading
  | .start stack, .name _ cs =>
    if isWellDotted cs then .ok (.named (String.ofList cs) stack)
    else .error (.malformedName (String.ofList cs))
  | .start _, .sign o c => .error (.nameExpected o c)
  | .named n stack, l =>
    if l.firstChar = '<' then .ok (.start ((n, []) :: stack))
    else afterType (.named n []) stack l
  | .closed t stack, l => afterType t stack l

/-- The type read, once the text has ended. -/
def finish : Reading → Except SyntaxError TypeExpr
  | .start _ => .error .nameMissing
  | .named n [] => .ok (.named n [])
  | .closed t [] => .ok t
  | .named _ (_ :: _) => .error .unclosed
  | .closed _ (_ :: _) => .error .unclosed

end Reading

/-- Reads a type expression; names are types, never variables. -/
def parse (text : String) : Except SyntaxError TypeExpr := do
  ((← (Lexeme.scan 0 text.toList).foldlM Reading.next (.start [])).finish)

end TypeExpr

end Wiring
