import Wiring.Text.DefaultIgnorable
import Wiring.Text.Graphic
import Wiring.Text.Nonspacing
/-!
# Texts in quotation marks

`quoted` shows a text so that its ends and its invisible characters can be seen: the quotation
mark, the backslash and what cannot be seen by itself are written as escapes.
-/

namespace Wiring.Text

/-- Whether a character is not to be told from its neighbours when it is written as it is. -/
def isInvisible (c : Char) : Bool :=
  !isGraphic c || isNonspacing c || isDefaultIgnorable c

/-- A character as it stands between quotation marks. -/
def escaped (c : Char) : String :=
  if c = '"' then "\\\""
  else if c = '\\' then "\\\\"
  else if c = '\t' then "\\t"
  else if c = '\n' then "\\n"
  else if c = '\r' then "\\r"
  else if c.toNat = 0 then "\\0"
  else if isInvisible c then
    "\\u\x7b" ++ String.ofList (Nat.toDigits 16 c.toNat) ++ "\x7d"
  else c.toString

/-- A text in quotation marks. -/
def quoted (s : String) : String := "\"" ++ String.join (s.toList.map escaped) ++ "\""

end Wiring.Text
