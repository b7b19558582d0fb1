import Wiring.Decimal.Shortest
import Wiring.Error
import Wiring.Text.Blank
/-!
# Settings of a resolution

`Settings` hold the limits, the tag of proxies and what hints are given; each has a usual value.
`Overrides` set some of them anew. `Settings.validate` rejects values that make no sense.
-/

namespace Wiring

/-- Which hints go with an unresolved claim. -/
structure HintSettings where
  /-- Whether hints are given at all. -/
  enabled : Bool := true
  /-- How similar a name must be to be suggested, from 0 to 1. -/
  similarityThreshold : Float := 0.85
  /-- How many names are suggested. -/
  maxSuggestions : Nat := 3
deriving Inhabited

/-- The settings of a resolution. -/
structure Settings where
  /-- How many rounds may be tried. -/
  maxRounds : Nat := 8
  /-- How deeply forks may be nested. -/
  maxForkDepth : Nat := 16
  /-- The tag that proxies carry. -/
  proxyTag : String := "wiregraph.PromisedProxy"
  /-- The hints. -/
  hints : HintSettings := {}
deriving Inhabited

/-- New values for some of the hint settings. -/
structure HintOverrides where
  enabled : Option Bool := none
  similarityThreshold : Option Float := none
  maxSuggestions : Option Nat := none
deriving Inhabited

/-- New values for some of the settings. -/
structure Overrides where
  maxRounds : Option Nat := none
  maxForkDepth : Option Nat := none
  proxyTag : Option String := none
  hints : Option HintOverrides := none
deriving Inhabited

/-- The hint settings with the new values. -/
def HintOverrides.apply (o : HintOverrides) (s : HintSettings) : HintSettings where
  enabled := o.enabled.getD s.enabled
  similarityThreshold := o.similarityThreshold.getD s.similarityThreshold
  maxSuggestions := o.maxSuggestions.getD s.maxSuggestions

/-- The settings with the new values. -/
def Overrides.apply (o : Overrides) (s : Settings) : Settings where
  maxRounds := o.maxRounds.getD s.maxRounds
  maxForkDepth := o.maxForkDepth.getD s.maxForkDepth
  proxyTag := o.proxyTag.getD s.proxyTag
  hints := (o.hints.map (·.apply s.hints)).getD s.hints

namespace Settings

/-- Why settings make no sense. -/
inductive Invalid where
  /-- No round may be tried. -/
  | noRounds
  /-- The tag of proxies is blank. -/
  | blankProxyTag
  /-- The threshold is not between 0 and 1. -/
  | threshold (x : Float)

/-- The wording of a reason. -/
def Invalid.message : Invalid → String
  | .noRounds => "max_rounds must be at least 1"
  | .blankProxyTag => "proxy_tag must not be empty"
  | .threshold x =>
    "hints.similarity_threshold must be between 0 and 1, got " ++ Decimal.positional x

/-- Rejects settings that make no sense. -/
def validate (s : Settings) : Except Invalid Unit := do
  if s.maxRounds = 0 then throw .noRounds
  if isAllBlank s.proxyTag then throw .blankProxyTag
  let x := s.hints.similarityThreshold
  if !(0.0 <= x && x <= 1.0) then throw (.threshold x)

end Settings

end Wiring
