import Wiring.Decimal.Shortest
import Wiring.Value.Basic
/-!
# Writing JSON

`Json.compact` writes a value without blanks, `Json.pretty` with one item or field on a line,
indented by two blanks for each level. Both keep the order of the fields.

Strings escape the quotation mark, the backslash and the characters below U+0020, with the short
escapes where JSON has them; all other characters stand for themselves.
-/

namespace Wiring.Json

/-- The hexadecimal digit of a number below 16. -/
def hexDigit (n : Nat) : Char :=
  if n < 10 then Char.ofNat (48 + n) else Char.ofNat (87 + n)

/-- A character as it stands inside a string. -/
def escapeChar (c : Char) : List Char :=
  if c = '"' then ['\\', '"']
  else if c = '\\' then ['\\', '\\']
  else if c = '\x08' then ['\\', 'b']
  else if c = '\t' then ['\\', 't']
  else if c = '\n' then ['\\', 'n']
  else if c = '\x0c' then ['\\', 'f']
  else if c = '\r' then ['\\', 'r']
  else if c.toNat < 0x20 then
    ['\\', 'u', '0', '0', hexDigit (c.toNat / 16), hexDigit (c.toNat % 16)]
  else [c]

/-- A string in quotation marks. -/
def quote (s : String) : String :=
  String.ofList ('"' :: s.toList.flatMap escapeChar ++ ['"'])

/-- A number; what is not finite has no number in JSON. -/
def number (x : Float) : String :=
  if x.isNaN || x.isInf then "null"
  else
    let digits := Decimal.positional x
    if digits.contains '.' then digits else digits ++ ".0"

/-- A value that holds no other values. -/
def leaf : Value → String
  | .null => "null"
  | .bool b => if b then "true" else "false"
  | .int n => toString n
  | .float x => number x
  | .text s => quote s
  | .moment s | .illegible s => quote s
  | .list _ => "[]"
  | .record _ => "\x7b\x7d"

mutual

/-- The value on one line without blanks. -/
def compact : Value → String
  | .list items => "[" ++ compactItems items ++ "]"
  | .record fields => "\x7b" ++ compactFields fields ++ "\x7d"
  | v => leaf v

/-- The items of a list with commas between them. -/
def compactItems : List Value → String
  | [] => ""
  | [v] => compact v
  | v :: vs => compact v ++ "," ++ compactItems vs

/-- The fields of a record with commas between them. -/
def compactFields : List (String × Value) → String
  | [] => ""
  | [(k, v)] => quote k ++ ":" ++ compact v
  | (k, v) :: rest => quote k ++ ":" ++ compact v ++ "," ++ compactFields rest

end

/-- The start of a line at a level of nesting. -/
def newline (level : Nat) : String :=
  "\n" ++ String.ofList (List.replicate (2 * level) ' ')

mutual

/-- The value with its parts on lines of their own, at a level of nesting. -/
def prettyAt (level : Nat) : Value → String
  | .list [] => "[]"
  | .list (v :: vs) => "[" ++ prettyItems (level + 1) (v :: vs) ++ newline level ++ "]"
  | .record [] => "\x7b\x7d"
  | .record (f :: fs) => "\x7b" ++ prettyFields (level + 1) (f :: fs) ++ newline level ++ "\x7d"
  | v => leaf v

/-- The items of a list, each on its line. -/
def prettyItems (level : Nat) : List Value → String
  | [] => ""
  | [v] => newline level ++ prettyAt level v
  | v :: vs => newline level ++ prettyAt level v ++ "," ++ prettyItems level vs

/-- The fields of a record, each on its line. -/
def prettyFields (level : Nat) : List (String × Value) → String
  | [] => ""
  | [(k, v)] => newline level ++ quote k ++ ": " ++ prettyAt level v
  | (k, v) :: rest =>
    newline level ++ quote k ++ ": " ++ prettyAt level v ++ "," ++ prettyFields level rest

end

/-- The value with its parts on lines of their own. -/
def pretty (v : Value) : String := prettyAt 0 v

end Wiring.Json
