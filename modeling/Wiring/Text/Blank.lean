/-!
# Blank characters

`isBlank c` holds of the characters with the Unicode property White_Space. `isAllBlank s` says
that a text has no other character, which is what makes a name or a tag count as empty.
-/

namespace Wiring

/-- The characters with the property White_Space, in ascending order. -/
def blankCodes : List Nat :=
  [0x9, 0xA, 0xB, 0xC, 0xD, 0x20, 0x85, 0xA0, 0x1680, 0x2000, 0x2001, 0x2002, 0x2003, 0x2004,
   0x2005, 0x2006, 0x2007, 0x2008, 0x2009, 0x200A, 0x2028, 0x2029, 0x202F, 0x205F, 0x3000]

/-- Whether `c` is white space. -/
def isBlank (c : Char) : Bool :=
  blankCodes.contains c.toNat

/-- Whether a text consists of white space alone; the empty text does. -/
def isAllBlank (s : String) : Bool :=
  s.toList.all isBlank

end Wiring
