import Wiring.NameMap
/-!
# Values of data formats

A `Value` is what a text in a data format denotes: JSON writes plans, TOML and JSON hold manifests
and settings. Records keep their fields in the order in which they are to be written;
`Value.canonical` sorts the fields of every record by name.
-/

namespace Wiring

/-- What a text in a data format denotes. -/
inductive Value where
  /-- The absence of a value. -/
  | null
  /-- A truth value. -/
  | bool (b : Bool)
  /-- A whole number. -/
  | int (n : Int)
  /-- A binary64 number. -/
  | float (x : Float)
  /-- A text. -/
  | text (s : String)
  /-- A date or time, which no reader here takes. -/
  | moment (written : String)
  /-- A number that no reader takes: it is out of range, or it has digits of another base. -/
  | illegible (written : String)
  /-- A list of values. -/
  | list (items : List Value)
  /-- Named values. -/
  | record (fields : List (String × Value))
deriving Inhabited

namespace Value

/-- The list of the texts. -/
def texts (ss : List String) : Value := .list (ss.map .text)

/-- A natural number. -/
def nat (n : Nat) : Value := .int n

/-- The value in question, or null. -/
def ofOption (f : α → Value) : Option α → Value
  | some a => f a
  | none => .null

mutual

/-- Whether a number in the value is illegible. -/
def isIllegible : Value → Bool
  | .illegible _ => true
  | .list items => isAnyIllegible items
  | .record fields => isAnyFieldIllegible fields
  | _ => false

/-- Whether any item of a list is illegible. -/
def isAnyIllegible : List Value → Bool
  | [] => false
  | v :: vs => isIllegible v || isAnyIllegible vs

/-- Whether the value of any field is illegible. -/
def isAnyFieldIllegible : List (String × Value) → Bool
  | [] => false
  | (_, v) :: rest => isIllegible v || isAnyFieldIllegible rest

end

mutual

/-- The value with the fields of every record in ascending order of their names. -/
def canonical : Value → Value
  | .list items => .list (canonicalItems items)
  | .record fields => .record (NameMap.ofList (canonicalFields fields)).toList
  | v => v

/-- `canonical` on the items of a list. -/
def canonicalItems : List Value → List Value
  | [] => []
  | v :: vs => canonical v :: canonicalItems vs

/-- `canonical` on the values of fields. -/
def canonicalFields : List (String × Value) → List (String × Value)
  | [] => []
  | (k, v) :: rest => (k, canonical v) :: canonicalFields rest

end

end Value

end Wiring
