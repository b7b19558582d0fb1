/-!
# Why a TOML text cannot be read

`SyntaxError` lists the causes, `SyntaxError.reason` their wording.
-/

namespace Wiring.Toml

/-- Why a text is not TOML. -/
inductive SyntaxError where
  /-- Something else was expected at this character. -/
  | unexpected (found : Char)
  /-- The text ends too early. -/
  | endOfText
  /-- A character that may not stand in a text. -/
  | control (found : Char)
  /-- A backslash that starts no escape. -/
  | escape
  /-- A word that is no value. -/
  | word (found : String)
  /-- A key that is already defined, or that cannot be extended. -/
  | key (name : String)
  /-- Keys, lists or tables within more of their kind than may be nested. -/
  | nesting
deriving DecidableEq, Repr

/-- The wording of a cause. -/
def SyntaxError.reason : SyntaxError → String
  | .unexpected c => s!"unexpected character '{c}'"
  | .endOfText => "unexpected end of the text"
  | .control c => s!"control character with code {c.toNat}"
  | .escape => "unknown escape in a string"
  | .word w => s!"'{w}' is not a value"
  | .key k => s!"key '{k}' is already defined"
  | .nesting => "too many levels of nesting"

/-- How many keys a dotted key may have, and how deep lists and tables may be nested. -/
def nestingLimit : Nat := 80

/-- The error about the front of what is left of the text. -/
def SyntaxError.atFront : List Char → SyntaxError
  | [] => .endOfText
  | c :: _ => .unexpected c

/-- Whether a character is a blank within a line. -/
def isBlankInLine (c : Char) : Bool := c == ' ' || c == '\t'

/-- The text after an end of line at its front; a carriage return may stand before the line feed. -/
def afterLineEnd? : List Char → Option (List Char)
  | '\n' :: rest => some rest
  | '\r' :: '\n' :: rest => some rest
  | _ => none

/-- Whether a character may stand neither in a comment nor in a string. -/
def isForbidden (c : Char) : Bool := (c.toNat < 0x20 && c != '\t') || c.toNat == 0x7f

end Wiring.Toml
