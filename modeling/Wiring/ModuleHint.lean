import Wiring.Claim
/-!
# Hints that a manifest provides

A `ModuleHint` is a message for those who claim a type that nothing provides, such as the module
that they could plug in.
-/

namespace Wiring

/-- A message about a type that nothing provides. -/
structure ModuleHint where
  /-- The type claimed; without arguments it stands for all types of its name. -/
  type : TypeExpr
  /-- The tags that the claim must have. -/
  tags : Tags := ∅
  /-- The message. -/
  message : String
deriving DecidableEq, Inhabited

/-- Whether the message concerns the claim. -/
def ModuleHint.Concerns (h : ModuleHint) (c : Claim) : Prop :=
  (if h.type.args = [] then h.type.name = c.type.name else h.type = c.type) ∧
    c.tags.Includes h.tags

instance (h : ModuleHint) (c : Claim) : Decidable (h.Concerns c) :=
  inferInstanceAs (Decidable (_ ∧ _))

end Wiring
