import Wiring.Extension
import Wiring.ModuleHint
import Wiring.Plan.Basic
import Wiring.Settings.Basic
import Wiring.Universe.Basic
/-!
# What a resolution works with and how it ends

A `Resolver` holds all that stays the same in a resolution: the table of types, the extensions,
the hints and the settings. A round of it ends with a `Resolution`: a plan, or the request for
another round. An `Interrupt` ends it early.
-/

namespace Wiring

/-- The demand of an extension for another round. -/
structure RestartRequest where
  /-- The claim that the extension will satisfy in a later round. -/
  claim : Claim
  /-- The declaration whose claim it is, as messages show it. -/
  requester : String
  /-- The name of the extension. -/
  extension : String
  /-- The number of the round given up, counted from zero. -/
  round : Nat
deriving DecidableEq, Inhabited

/-- The error for those who try one round only. -/
def RestartRequest.toError (q : RestartRequest) : Error :=
  .restartRequired q.claim.render q.requester q.extension

/-- How a round ends. -/
inductive Resolution where
  /-- All claims are satisfied. -/
  | resolved (plan : Plan)
  /-- Another round is needed. -/
  | restart (request : RestartRequest)
deriving DecidableEq, Inhabited

/-- Whether there is a plan. -/
def Resolution.isResolved : Resolution → Bool
  | .resolved _ => true
  | .restart _ => false

/-- The plan, for those who try one round only. -/
def Resolution.plan : Resolution → Except Error Plan
  | .resolved p => .ok p
  | .restart q => .error q.toError

/-- Why a resolution was broken off. -/
inductive Interrupt where
  /-- It failed. -/
  | failure (error : Error)
  /-- It was not given enough steps. -/
  | outOfFuel
deriving Inhabited

/-- What stays the same in a resolution. -/
structure Resolver where
  /-- The table of types. -/
  types : Universe := {}
  /-- The extensions, in the order in which they are asked. -/
  extensions : List Extension := []
  /-- The hints for claims that nothing satisfies. -/
  hints : List ModuleHint := []
  /-- The settings. -/
  settings : Settings := {}
deriving Inhabited

namespace Resolver

/-- The outcome of a computation that fails with an error of the library. -/
def checked : Except Error α → Except Interrupt α
  | .ok a => .ok a
  | .error e => .error (.failure e)

/-- The outcome of a computation that may need more steps than it was given. -/
def budgeted : Option α → Except Interrupt α
  | some a => .ok a
  | none => .error .outOfFuel

end Resolver

end Wiring
