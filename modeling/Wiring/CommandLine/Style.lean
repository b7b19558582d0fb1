/-!
# Colours of the terminal

A `Style` is a list of codes that a terminal understands. Without colours a text stays as it is. A
text may end styles of its own, and the style around it goes on after each such end.
-/

namespace Wiring.CommandLine

/-- How a text stands out. -/
inductive Style where
  | bold
  | underlined
  | boldRed
  | cyan
  | yellow
  | green
  | dimmed
deriving DecidableEq, Repr

/-- The codes of a style. -/
def Style.codes : Style → String
  | .bold => "1"
  | .underlined => "4"
  | .boldRed => "1;31"
  | .cyan => "36"
  | .yellow => "33"
  | .green => "32"
  | .dimmed => "2"

/-- What ends all styles. -/
def Style.stop : String := "\x1b[0m"

/-- What begins a style. -/
def Style.start (s : Style) : String := s!"\x1b[{s.codes}m"

/-- The text in a style, if there are colours. -/
def Style.paint (s : Style) (colours : Bool) (text : String) : String :=
  if colours then s.start ++ text.replace stop (stop ++ s.start) ++ stop else text

end Wiring.CommandLine
