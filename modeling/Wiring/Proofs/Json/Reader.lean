import Wiring.Value.Json
/-!
# Reading JSON

The reader beside the writer. A text is cut into tokens (`Json.scan`), which drops the white space
between them; then one token after the other is read with a stack of the lists and records that are
still open (`Json.Reading.next`). How the text of a decimal is turned into a binary64 number is a
parameter.

Codes of characters are those of whole characters: a character outside the basic plane stands for
itself and not as two codes.
-/

namespace Wiring.Json

/-! ## Tokens -/

/-- A piece of a text that white space does not divide. -/
inductive Token where
  /-- A bracket, a brace, a colon or a comma. -/
  | sign (c : Char)
  /-- A string. -/
  | text (s : String)
  /-- Anything else: a number, or one of the words for null and the truth values. -/
  | word (w : String)
deriving DecidableEq

/-- Where a scan stands. -/
inductive Mode where
  /-- Between two tokens. -/
  | between
  /-- In a word. -/
  | word (cs : List Char)
  /-- In a string. -/
  | text (cs : List Char)
  /-- After a backslash. -/
  | escape (cs : List Char)
  /-- In the code of a character, of which some digits are left. -/
  | code (cs : List Char) (left : Nat) (value : Nat)

/-- Whether the character is white space. -/
def isSpace (c : Char) : Bool := c == ' ' || c == '\n' || c == '\t' || c == '\r'

/-- Whether the character is a token of its own. -/
def isSign (c : Char) : Bool :=
  c == '[' || c == ']' || c == '\x7b' || c == '\x7d' || c == ':' || c == ','

/-- The character that a letter after a backslash stands for. -/
def unescape? (c : Char) : Option Char :=
  if c = '"' ∨ c = '\\' ∨ c = '/' then some c
  else if c = 'b' then some '\x08'
  else if c = 'f' then some '\x0c'
  else if c = 'n' then some '\n'
  else if c = 'r' then some '\r'
  else if c = 't' then some '\t'
  else none

/-- The value of a hexadecimal digit. -/
def hexValue? (c : Char) : Option Nat :=
  if '0' ≤ c ∧ c ≤ '9' then some (c.toNat - 48)
  else if 'a' ≤ c ∧ c ≤ 'f' then some (c.toNat - 87)
  else if 'A' ≤ c ∧ c ≤ 'F' then some (c.toNat - 55)
  else none

/-- The character of a code. -/
def charOf? (n : Nat) : Option Char := if n.isValidChar then some (Char.ofNat n) else none

/-- Takes one character, which may end tokens. -/
def Mode.step : Mode → Char → Option (List Token × Mode)
  | .between, c =>
    if isSpace c then some ([], .between)
    else if isSign c then some ([.sign c], .between)
    else if c = '"' then some ([], .text [])
    else some ([], .word [c])
  | .word cs, c =>
    if isSpace c then some ([.word (String.ofList cs)], .between)
    else if isSign c then some ([.word (String.ofList cs), .sign c], .between)
    else if c = '"' then none
    else some ([], .word (cs ++ [c]))
  | .text cs, c =>
    if c = '"' then some ([.text (String.ofList cs)], .between)
    else if c = '\\' then some ([], .escape cs)
    else if c.toNat < 0x20 then none
    else some ([], .text (cs ++ [c]))
  | .escape cs, c =>
    if c = 'u' then some ([], .code cs 4 0)
    else (unescape? c).map fun d => ([], .text (cs ++ [d]))
  | .code cs left value, c => do
    let value := 16 * value + (← hexValue? c)
    if left = 1 then (charOf? value).map fun d => ([], .text (cs ++ [d]))
    else some ([], .code cs (left - 1) value)

/-- Ends a text. -/
def Mode.close : Mode → Option (List Token)
  | .between => some []
  | .word cs => some [.word (String.ofList cs)]
  | .text _ | .escape _ | .code _ _ _ => none

/-- The tokens of the rest of a text. -/
def scan (m : Mode) : List Char → Option (List Token)
  | [] => m.close
  | c :: cs => (m.step c).bind fun next => (scan next.2 cs).map (next.1 ++ ·)

/-! ## Values -/

/-- A list or a record that is still open. -/
inductive Open where
  /-- A list with its first items. -/
  | list (items : List Value)
  /-- A record with its first fields and the name of the next one. -/
  | record (fields : List (String × Value)) (name : String)

/-- How far a text has been read. -/
inductive Reading where
  /-- A value is next, or, in a list without items, a closing bracket. -/
  | value (stack : List Open)
  /-- A record has these fields: a name is next, or, if there are none yet, a closing brace. -/
  | name (fields : List (String × Value)) (stack : List Open)
  /-- A name was read: a colon is next. -/
  | colon (fields : List (String × Value)) (name : String) (stack : List Open)
  /-- A value is complete. -/
  | closed (v : Value) (stack : List Open)

/-- Whether 64 bits hold the number, with or without a sign. -/
def Fits (n : Int) : Prop := -((1 <<< 63 : Nat) : Int) ≤ n ∧ n < (UInt64.size : Int)

instance (n : Int) : Decidable (Fits n) := inferInstanceAs (Decidable (_ ∧ _))

/-- The number that digits after an optional sign make up. -/
def wholeOf : List Char → Int
  | '-' :: cs => -(Nat.ofDigitChars 10 cs 0 : Int)
  | cs => (Nat.ofDigitChars 10 cs 0 : Int)

/-- The whole number of 64 bits that a word writes, without leading zeros. -/
def whole? (w : String) : Option Int :=
  let n := wholeOf w.toList
  if toString n = w ∧ Fits n then some n else none

/-- The value that a word stands for; what is no such whole number is a decimal. -/
def wordValue? (decimal : String → Option Float) (w : String) : Option Value :=
  if w = "null" then some .null
  else if w = "true" then some (.bool true)
  else if w = "false" then some (.bool false)
  else
    match whole? w with
    | some n => some (.int n)
    | none => (decimal w).map .float

namespace Reading

/-- Reads the first token of a value, or the end of a list that has no items. -/
def begin (decimal : String → Option Float) (stack : List Open) : Token → Option Reading
  | .word w => (wordValue? decimal w).map (.closed · stack)
  | .text s => some (.closed (.text s) stack)
  | .sign c =>
    if c = '[' then some (.value (.list [] :: stack))
    else if c = '\x7b' then some (.name [] stack)
    else
      match c, stack with
      | ']', .list [] :: stack => some (.closed (.list []) stack)
      | _, _ => none

/-- Reads the token after a complete value. -/
def proceed (v : Value) (c : Char) : List Open → Option Reading
  | [] => none
  | .list items :: stack =>
    if c = ',' then some (.value (.list (items ++ [v]) :: stack))
    else if c = ']' then some (.closed (.list (items ++ [v])) stack)
    else none
  | .record fields key :: stack =>
    if c = ',' then some (.name (fields ++ [(key, v)]) stack)
    else if c = '\x7d' then some (.closed (.record (fields ++ [(key, v)])) stack)
    else none

/-- Reads one token. -/
def next (decimal : String → Option Float) : Reading → Token → Option Reading
  | .value stack, t => begin decimal stack t
  | .name fields stack, .text s => some (.colon fields s stack)
  | .name fields stack, .sign c =>
    if c = '\x7d' ∧ fields.isEmpty then some (.closed (.record []) stack) else none
  | .name _ _, .word _ => none
  | .colon fields key stack, t =>
    if t = .sign ':' then some (.value (.record fields key :: stack)) else none
  | .closed v stack, .sign c => proceed v c stack
  | .closed _ _, .text _ | .closed _ _, .word _ => none

/-- The value read, once the text has ended. -/
def finish : Reading → Option Value
  | .closed v [] => some v
  | _ => none

end Reading

/-- Reads the rest of a text, which starts between two tokens. -/
def run (decimal : String → Option Float) (cs : List Char) (x : Reading) : Option Value := do
  (← (← scan .between cs).foldlM (Reading.next decimal) x).finish

/-- Reads a JSON text. -/
def read (decimal : String → Option Float) (text : String) : Option Value :=
  run decimal text.toList (.value [])

end Wiring.Json
