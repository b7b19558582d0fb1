/-!
# Similarity of names

`similarity a b` grades two texts between 0 and 1 by the Jaro–Winkler measure: by how many
characters they share at about the same place, by how many of those are out of order, and by the
length of their common beginning.
-/

namespace Wiring.Text

/-- Takes out of `marks` the first free place, from `lo` up to `hi`, where `b` has the character.
A mark says whether a place was taken before. -/
def takeMatch (c : Char) (lo hi : Nat) : (place : Nat) → List (Char × Bool) →
    Option (List (Char × Bool))
  | _, [] => none
  | place, (d, taken) :: rest =>
    if lo ≤ place ∧ place ≤ hi ∧ !taken ∧ c = d then some ((d, true) :: rest)
    else (takeMatch c lo hi (place + 1) rest).map ((d, taken) :: ·)

/-- The characters of the first text that have a partner, and the second text with the partners
marked. Partners are at most `window` places apart. -/
def matchChars (window : Nat) : (place : Nat) → List Char → List (Char × Bool) →
    List Char × List (Char × Bool)
  | _, [], marks => ([], marks)
  | place, c :: cs, marks =>
    match takeMatch c (place - window) (place + window) 0 marks with
    | some marked =>
      let (found, final) := matchChars window (place + 1) cs marked
      (c :: found, final)
    | none => matchChars window (place + 1) cs marks

/-- The share of common characters, less what is out of order. -/
def jaro (a b : List Char) : Float :=
  let window := max a.length b.length / 2 - 1
  let (fromA, marks) := matchChars window 0 a (b.map (·, false))
  let fromB := (marks.filter (·.2)).map (·.1)
  let swaps := ((fromA.zip fromB).filter fun p => p.1 != p.2).length / 2
  let m := fromA.length.toFloat
  if fromA.isEmpty then 0.0
  else (m / a.length.toFloat + m / b.length.toFloat + (m - swaps.toFloat) / m) / 3.0

/-- The length of the common beginning, counting at most `limit`. -/
def commonStart : (limit : Nat) → List Char → List Char → Nat
  | limit + 1, c :: cs, d :: ds => if c = d then commonStart limit cs ds + 1 else 0
  | _, _, _ => 0

/-- The grade: what is above 0.7 is raised for a common beginning. -/
def similarity (a b : String) : Float :=
  let base := jaro a.toList b.toList
  if base > 0.7 then
    base + 0.1 * (commonStart 4 a.toList b.toList).toFloat * (1.0 - base)
  else base

end Wiring.Text
