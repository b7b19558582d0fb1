import Wiring.Error
import Wiring.Tags
import Wiring.TypeExpr.Parser
import Wiring.Value.Dialect
/-!
# Reading values

A reader takes a `Value` to data of the library or says why it cannot: `Fault.shape`, or, where a
text should be a type expression, `Fault.type` with the reason.
-/

namespace Wiring

/-- Why a value cannot be read. -/
inductive Fault where
  /-- The value has another shape than expected. -/
  | shape
  /-- A text is not a type expression. -/
  | type (input : String) (reason : TypeExpr.SyntaxError)
deriving DecidableEq, Repr

/-- The wording of a fault. -/
def Fault.message : Fault → String
  | .shape => "a value does not have the expected form"
  | .type input reason => (Error.invalidType input reason.reason).message

namespace Value

/-- Reads a text. -/
def asText : Value → Except Fault String
  | .text s => .ok s
  | _ => .error .shape

/-- Reads a truth value. -/
def asBool : Value → Except Fault Bool
  | .bool b => .ok b
  | _ => .error .shape

/-- Reads a natural number below `bound`. -/
def asNatBelow (bound : Nat) : Value → Except Fault Nat
  | .int (.ofNat n) => if n < bound then .ok n else .error .shape
  | _ => .error .shape

/-- Reads a natural number of 32 bits. -/
def asWord32 (v : Value) : Except Fault Nat := v.asNatBelow UInt32.size

/-- Reads a natural number of 64 bits. -/
def asWord64 (v : Value) : Except Fault Nat := v.asNatBelow UInt64.size

/-- Reads a number; a whole number must fit 64 bits. -/
def asFloat : Value → Except Fault Float
  | .float x => .ok x
  | .int n => if -((1 <<< 63 : Nat) : Int) ≤ n ∧ n < (UInt64.size : Int) then .ok (.ofInt n) else .error .shape
  | _ => .error .shape

/-- Reads a list of what `f` reads. -/
def asList (f : Value → Except Fault α) : Value → Except Fault (List α)
  | .list items => items.mapM f
  | _ => .error .shape

/-- Reads what `f` reads, or null. -/
def asOption (f : Value → Except Fault α) : Value → Except Fault (Option α)
  | .null => .ok none
  | v => do return some (← f v)

/-- Reads a list of texts. -/
def asTexts (v : Value) : Except Fault (List String) := v.asList asText

/-- Reads a set of tags. -/
def asTags (v : Value) : Except Fault Tags := do return .ofList (← v.asTexts)

/-- Reads a type expression from its written form. -/
def asType (v : Value) : Except Fault TypeExpr := do
  let s ← v.asText
  match TypeExpr.parse s with
  | .ok t => .ok t
  | .error e => .error (.type s e)

/-- Reads a word, which may also stand as the only name of a record. -/
def asWord (d : Dialect) : Value → Except Fault String
  | .text s => .ok s
  | .record [(s, v)] => if d.isNothing v then .ok s else .error .shape
  | _ => .error .shape

/-- Reads a word that `f` knows. -/
def asWordOf (f : String → Option α) (d : Dialect) (v : Value) : Except Fault α := do
  match f (← v.asWord d) with
  | some a => .ok a
  | none => .error .shape

/-- Reads a map whose values `f` reads. -/
def asMap (f : Value → Except Fault α) : Value → Except Fault (NameMap α)
  | .record fields => do
    return .ofList (← fields.mapM fun e => do return (e.1, ← f e.2))
  | _ => .error .shape

end Value

end Wiring
