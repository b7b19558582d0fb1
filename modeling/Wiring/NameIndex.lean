/-!
# An index from names to positions

A `NameIndex` keeps, for each name, the positions in a list at which the name was filed, in the
order of filing. Positions are filed in ascending order, so each list of positions ascends.
-/

namespace Wiring

/-- For each name the positions filed under it, in the order of filing. -/
structure NameIndex where
  /-- The names with their positions. -/
  entries : List (String × List Nat) := []
deriving DecidableEq, Inhabited

namespace NameIndex

/-- The index without names. -/
def empty : NameIndex := {}

instance : EmptyCollection NameIndex := ⟨empty⟩

/-- The positions filed under a name. -/
def positions (ix : NameIndex) (name : String) : List Nat := (ix.entries.lookup name).getD []

/-- Files a position under one name in a list of entries. -/
def fileEntry (pos : Nat) (name : String) : List (String × List Nat) → List (String × List Nat)
  | [] => [(name, [pos])]
  | (n, ps) :: rest =>
    if n = name then (n, ps ++ [pos]) :: rest else (n, ps) :: fileEntry pos name rest

/-- Files a position under each of the names. -/
def file (ix : NameIndex) (pos : Nat) (names : List String) : NameIndex :=
  ⟨names.foldl (fun es n => fileEntry pos n es) ix.entries⟩

end NameIndex

end Wiring
