import Wiring.Declaration
import Wiring.Text.Quoted
/-!
# Extensions

An `Extension` is asked about a claim that nothing else satisfies. It may have no opinion, supply
a declaration, or ask for a new round because the component does not exist yet. Extensions are
asked in order and the first opinion counts.
-/

namespace Wiring

/-- What an extension says about a claim. -/
inductive Answer where
  /-- It has no opinion. -/
  | noOpinion
  /-- It supplies a declaration, possibly a template. -/
  | supply (draft : Draft)
  /-- The claim can be satisfied in a new round. -/
  | newRound
deriving DecidableEq, Inhabited

/-- A further way to satisfy claims. -/
structure Extension where
  /-- The name shown to the reader. -/
  name : String
  /-- The answer for a claim, its requester and the number of the round, counted from zero. -/
  answer : Claim → Declaration → Nat → Except Error Answer
deriving Inhabited

namespace Extension

/-- An opinion and the name of the extension that has it. -/
structure Opinion where
  /-- The name of the extension. -/
  extension : String
  /-- What it says. -/
  answer : Answer
deriving DecidableEq

/-- The first opinion on the claim. -/
def consult (extensions : List Extension) (c : Claim) (requester : Declaration) (round : Nat) :
    Except Error (Option Opinion) :=
  match extensions with
  | [] => .ok none
  | e :: rest => do
    match ← e.answer c requester round with
    | .noOpinion => consult rest c requester round
    | answer => return some ⟨e.name, answer⟩

/-- The names of extensions in the order in which these are asked. -/
def renderNames (extensions : List Extension) : String :=
  "[" ++ ", ".intercalate (extensions.map fun e => Text.quoted e.name) ++ "]"

end Extension

end Wiring
