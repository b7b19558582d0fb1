import Wiring.Toml.Basic
import Wiring.Value.Basic
/-!
# Numbers, truth values, dates and times in TOML

A value that is neither a string nor a list nor a table is one word. `Scalar.ofWord?` says which
value it is. Underscores may stand between digits, and whole numbers may also be hexadecimal, octal
or binary.

A word may have the form of a number without being one that can be read: a whole number of more than
128 bits, a number beyond binary64, a base without digits, or other characters after an underscore.
Such a word is an illegible value, not a fault of the text.
-/

namespace Wiring.Toml.Scalar

/-- The digits of a group in which an underscore may stand between two digits. -/
def digits? (isDigit : Char → Bool) : List Char → Option (List Char)
  | [] => none
  | [c] => if isDigit c then some [c] else none
  | c :: '_' :: rest => if isDigit c then (digits? isDigit rest).map (c :: ·) else none
  | c :: rest => if isDigit c then (digits? isDigit rest).map (c :: ·) else none

/-- The value of a digit. -/
def digitValue (c : Char) : Nat :=
  if c.isDigit then c.toNat - 48
  else if 'a' ≤ c ∧ c ≤ 'f' then c.toNat - 87
  else c.toNat - 55

/-- The number that digits denote. -/
def ofDigits (base : Nat) (digits : List Char) : Nat :=
  digits.foldl (fun n c => base * n + digitValue c) 0

/-- Whether a character is a hexadecimal digit. -/
def isHexDigit (c : Char) : Bool :=
  c.isDigit || ('a' ≤ c && c ≤ 'f') || ('A' ≤ c && c ≤ 'F')

/-- Whether a character is an octal digit. -/
def isOctalDigit (c : Char) : Bool := '0' ≤ c && c ≤ '7'

/-- Whether a character is a binary digit. -/
def isBinaryDigit (c : Char) : Bool := c == '0' || c == '1'

/-- The digits of a decimal number, which has no needless zero in front. -/
def decimal? (cs : List Char) : Option (List Char) := do
  match ← digits? Char.isDigit cs with
  | '0' :: _ :: _ => none
  | ds => some ds

/-- Whether the number is negative, and what follows the sign. -/
def signed : List Char → Bool × List Char
  | '-' :: rest => (true, rest)
  | '+' :: rest => (false, rest)
  | cs => (false, cs)

/-- Whether a whole number fits 128 bits, with or without a sign. -/
def isWithin128 (n : Int) : Bool := -((1 <<< 127 : Nat) : Int) ≤ n && n < ((1 <<< 128 : Nat) : Int)

/-- The value that a word denotes, given the number for which it stands. -/
def ofInteger (word : List Char) (n : Int) : Value :=
  if isWithin128 n then .int n else .illegible (.ofList word)

/-- A whole number of a base other than ten, after its two marks. The digits may be missing, but
then the number is illegible. -/
def based? (base : Nat) (isDigit : Char → Bool) (word : List Char) : Option Value :=
  match word.drop 2 with
  | [] => some (.illegible (.ofList word))
  | cs => (digits? isDigit cs).map fun ds => ofInteger word (ofDigits base ds)

/-- Whether each underscore stands between two hexadecimal digits. `before` is the character before
the text. -/
def areUnderscoresEnclosed : (before : Char) → List Char → Bool
  | _, [] => true
  | before, '_' :: rest =>
    isHexDigit before && rest.head?.any isHexDigit && areUnderscoresEnclosed '_' rest
  | _, c :: rest => areUnderscoresEnclosed c rest

/-- A whole number of base ten in which an underscore follows the first digits, or the sign. Other
characters may stand after it, but then the number is illegible. -/
def underscored? (word : List Char) : Option Value :=
  let (negative, rest) := signed word
  let before := if rest.length < word.length then '0' else '_'
  let ds := rest.filter (· != '_')
  if (rest.dropWhile Char.isDigit).head? = some '_' ∧ rest.head? ≠ some '0' ∧
      !rest.any (· ∈ ['.', 'e', 'E']) ∧ areUnderscoresEnclosed before rest then
    if ds.all Char.isDigit then
      let n := ofDigits 10 ds
      some (ofInteger word (if negative then -(n : Int) else n))
    else some (.illegible (.ofList word))
  else none

/-- A whole number. -/
def integer? (word : List Char) : Option Value :=
  match word with
  | '0' :: 'x' :: _ => based? 16 isHexDigit word
  | '0' :: 'o' :: _ => based? 8 isOctalDigit word
  | '0' :: 'b' :: _ => based? 2 isBinaryDigit word
  | _ =>
    let (negative, rest) := signed word
    if rest.all Char.isDigit then do
      let n := ofDigits 10 (← decimal? rest)
      return ofInteger word (if negative then -(n : Int) else n)
    else underscored? word

/-- The number `m * 10 ^ e`; infinite, if it is too large. -/
def scientific (m : Nat) (e : Int) : Float :=
  let size : Int := (Nat.toDigits 10 m).length + e
  if m = 0 then 0.0
  else if 400 < size then 1.0 / 0.0
  else if size < -400 then 0.0
  else Float.ofScientific m (decide (e < 0)) e.natAbs

/-- The exponent after its letter; zero, if there is none. -/
def exponent? : List Char → Option Int
  | [] => some 0
  | _ :: cs => do
    let (negative, rest) := signed cs
    let n := ofDigits 10 (← digits? Char.isDigit rest)
    return if negative then -(n : Int) else (n : Int)

/-- The digits before the point of a number with a sign or without one. After a sign there may be
an underscore, and then also needless zeros. -/
def wholePart? (isSigned : Bool) : List Char → Option (List Char)
  | '_' :: rest => if isSigned then digits? Char.isDigit rest else none
  | cs => decimal? cs

/-- A number with a fraction or an exponent, an infinity, or no number. -/
def float? (word : List Char) : Option Value := do
  let (negative, rest) := signed word
  let isMark (c : Char) : Bool := c == 'e' || c == 'E'
  let size ←
    if rest = "inf".toList then some (1.0 / 0.0)
    else if rest = "nan".toList then some (0.0 / 0.0)
    else if rest.all Char.isDigit then none
    else do
      let mantissa := rest.takeWhile (!isMark ·)
      let e ← exponent? (rest.dropWhile (!isMark ·))
      let whole ← wholePart? (rest.length < word.length) (mantissa.takeWhile (· != '.'))
      let fraction ←
        match mantissa.dropWhile (· != '.') with
        | [] => some []
        | _ :: fraction => digits? Char.isDigit fraction
      pure <| scientific (ofDigits 10 (whole ++ fraction)) (e - fraction.length)
  let x := if negative then -size else size
  return if x.isInf && rest.any Char.isDigit then .illegible (.ofList word) else .float x

/-- The number that exactly these digits denote, if they are digits and it is in the range. -/
def field? (lo hi : Nat) (cs : List Char) : Option Nat := do
  let n := ofDigits 10 cs
  if cs.all Char.isDigit && lo ≤ n && n ≤ hi then some n else none

/-- Whether the characters are a day of the calendar. -/
def isDate : List Char → Bool
  | [y₁, y₂, y₃, y₄, '-', m₁, m₂, '-', d₁, d₂] =>
    match field? 0 9999 [y₁, y₂, y₃, y₄], field? 1 12 [m₁, m₂] with
    | some y, some m =>
      let leap := y % 4 = 0 ∧ (y % 100 ≠ 0 ∨ y % 400 = 0)
      let days := if m = 2 then (if leap then 29 else 28) else if m ∈ [4, 6, 9, 11] then 30 else 31
      (field? 1 days [d₁, d₂]).isSome
    | _, _ => false
  | _ => false

/-- Whether the characters are the hour and the minute. -/
def isHourMinute : List Char → Bool
  | [h₁, h₂, ':', m₁, m₂] => (field? 0 23 [h₁, h₂]).isSome && (field? 0 59 [m₁, m₂]).isSome
  | _ => false

/-- Whether the characters are the time of a day. -/
def isTime (cs : List Char) : Bool :=
  isHourMinute (cs.take 5) &&
    match cs.drop 5 with
    | [] => true
    | ':' :: s₁ :: s₂ :: rest =>
      (field? 0 60 [s₁, s₂]).isSome &&
        match rest with
        | [] => true
        | '.' :: fraction => !fraction.isEmpty && fraction.all Char.isDigit
        | _ => false
    | _ => false

/-- Whether the characters are an offset from the universal time. -/
def isOffset : List Char → Bool
  | [c] => c == 'Z' || c == 'z'
  | c :: rest => (c == '+' || c == '-') && isHourMinute rest
  | [] => true

/-- Whether the characters are a time with or without an offset. -/
def isOffsetTime (cs : List Char) : Bool :=
  let isTimeChar (c : Char) : Bool := c.isDigit || c == ':' || c == '.'
  isTime (cs.takeWhile isTimeChar) && isOffset (cs.dropWhile isTimeChar)

/-- Whether the characters are a date, a time, or both. -/
def isMoment (cs : List Char) : Bool :=
  isTime cs || isDate cs ||
    (isDate (cs.take 10) && ((cs[10]?).any fun c => c == 'T' || c == 't' || c == ' ') &&
      isOffsetTime (cs.drop 11))

/-- The value that a word stands for. -/
def ofWord? (cs : List Char) : Option Value :=
  if cs = "true".toList then some (.bool true)
  else if cs = "false".toList then some (.bool false)
  else if isMoment cs then some (.moment (.ofList cs))
  else integer? cs <|> float? cs

/-- Whether a character ends a word. -/
def endsWord (c : Char) : Bool :=
  isBlankInLine c || c ∈ ['\n', '\r', ',', '[', ']', '\x7b', '\x7d', '#', '=']

/-- Reads a word at the front of the text. A date is joined with a time that follows a blank. -/
def read (s : List Char) : Except SyntaxError (Value × List Char) := do
  let first := s.takeWhile (!endsWord ·)
  let rest := s.dropWhile (!endsWord ·)
  let (word, rest) :=
    match rest with
    | ' ' :: c :: more =>
      if isDate first && c.isDigit then
        (first ++ ' ' :: (c :: more).takeWhile (!endsWord ·), (c :: more).dropWhile (!endsWord ·))
      else (first, rest)
    | _ => (first, rest)
  if word.isEmpty then throw (.atFront s)
  match ofWord? word with
  | some v => return (v, rest)
  | none => throw (.word (.ofList word))

end Wiring.Toml.Scalar
