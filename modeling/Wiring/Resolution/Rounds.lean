import Wiring.Resolution.Round
/-!
# Repeating rounds

A `Discoverer` finds drafts anew for each round, and prepares what an extension demanded for the
next. `Resolver.drive` repeats rounds until one gives a plan, as often as the settings allow.
-/

namespace Wiring

/-- Finds the drafts of a round. The state `σ` is what it remembers between rounds. -/
structure Discoverer (σ : Type u) where
  /-- The drafts of a round. -/
  discover : σ → List Draft
  /-- What is remembered after a demand for another round. -/
  prepare : σ → RestartRequest → σ

namespace Discoverer

/-- Finds the same drafts in each round. -/
def fixed (drafts : List Draft) : Discoverer Unit where
  discover _ := drafts
  prepare s _ := s

end Discoverer

namespace Resolver

/-- The error after the last round that may be tried. -/
def roundsExhausted (r : Resolver) : Option RestartRequest → Error
  | some q => .roundLimit q.claim.render q.extension r.settings.maxRounds
  | none => .settingsFault "max_rounds must be at least 1"

/-- Tries `left` more rounds. Gives the outcome and what is remembered in the end. -/
def driveFrom (r : Resolver) (fuel : Nat) (source : Discoverer σ) :
    (left : Nat) → Option RestartRequest → σ → Except Interrupt Plan × σ
  | 0, last, memory => (.error (.failure (r.roundsExhausted last)), memory)
  | left + 1, _, memory =>
    match r.resolve fuel (source.discover memory) (r.settings.maxRounds - (left + 1)) with
    | .error e => (.error e, memory)
    | .ok (.resolved plan) => (.ok plan, memory)
    | .ok (.restart q) => driveFrom r fuel source left (some q) (source.prepare memory q)

/-- Repeats rounds until one gives a plan. -/
def drive (r : Resolver) (fuel : Nat) (source : Discoverer σ) (memory : σ) :
    Except Interrupt Plan × σ :=
  r.driveFrom fuel source r.settings.maxRounds none memory

end Resolver

end Wiring
