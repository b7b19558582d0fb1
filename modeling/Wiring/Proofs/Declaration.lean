import Wiring.Declaration
import Wiring.Proofs.TypeExpr.Grammar
/-!
# Drafts that are declared again

A declaration is a draft as well, with the parameters bound in its type and claims. Declaring it
again changes nothing (`Draft.declaring_again_changes_nothing`): parameters that are bound stay
bound (`TypeExpr.bind_bind`), also where a parameter has the name of a type with arguments, and what
a draft is rejected for does not show the difference between a variable and a name.
-/

namespace Wiring

/-! ## Parameters that are bound -/

namespace TypeExpr

theorem bind_nil (t : TypeExpr) : t.bind [] = t := by
  induction t using ind with
  | var x => rfl
  | named n args ih =>
    cases args with
    | nil => simp [bind]
    | cons a as =>
      rw [bind, bindAll_eq_map, ih a (by simp),
        List.map_congr_left fun b hb => ih b (by simp [hb]), List.map_id']

/-- **Parameters that are bound stay bound**: a name without arguments has become a variable or is
no parameter, and a name with arguments is none in either pass. -/
theorem bind_bind (ps : List String) (t : TypeExpr) : (t.bind ps).bind ps = t.bind ps := by
  induction t using ind with
  | var x => rfl
  | named n args ih =>
    cases args with
    | nil =>
      rw [bind]
      split
      · rfl
      · next hn => rw [bind, if_neg hn]
    | cons a as =>
      obtain ⟨ha, has⟩ := List.forall_mem_cons.1 ih
      have hmap : as.map (bind ps ∘ bind ps) = as.map (bind ps) := List.map_congr_left has
      rw [bind, bind, ha, bindAll_eq_map, bindAll_eq_map, List.map_map, hmap]

/-- Of `T<T>` only the argument becomes a variable. -/
example : ((named "T" [named "T" []]).bind ["T"]).bind ["T"] = named "T" [var "T"] := by decide

end TypeExpr

namespace Claim

theorem bind_nil (c : Claim) : c.bind [] = c := by
  rw [bind, TypeExpr.bind_nil]

theorem bind_bind (ps : List String) (c : Claim) : (c.bind ps).bind ps = c.bind ps := by
  rw [bind, bind, TypeExpr.bind_bind]

theorem render_bind (ps : List String) (c : Claim) : (c.bind ps).render = c.render := by
  rw [render, bind, TypeExpr.render_bind]
  rfl

end Claim

/-! ## Drafts and their declarations -/

namespace Draft

variable {d : Draft} {id : Nat}

/-- Declaring a draft neither makes it a template nor keeps it from being one. -/
theorem isTemplate_declare (d : Draft) (id : Nat) :
    (d.declare id).isTemplate = d.isTemplate := by
  cases hp : d.typeParams with
  | nil => simp [isTemplate, declare, hp, TypeExpr.bind_nil]
  | cons p ps => simp [isTemplate, declare, hp]

/-- A declaration exposes the variables that its draft exposes. -/
theorem exposedVars_declare : (d.declare id).exposedVars = d.exposedVars :=
  congrArg TypeExpr.vars (d.type.bind_bind d.typeParams)

/-- Its first claim with a variable that is not exposed is the same, with the parameters bound. -/
theorem foreignVar?_declare : (d.declare id).foreignVar? =
    d.foreignVar?.map fun e => (e.1.bind d.typeParams, e.2) := by
  have hclaims : (d.declare id).claims = d.claims.map (Claim.bind d.typeParams) := rfl
  have hclaim (c : Claim) :
      ((c.bind d.typeParams).type.bind d.typeParams).vars = (c.type.bind d.typeParams).vars :=
    congrArg TypeExpr.vars (c.type.bind_bind d.typeParams)
  rw [foreignVar?, foreignVar?, exposedVars_declare, hclaims, List.findSome?_map,
    List.map_findSome?]
  refine congrArg (List.findSome? · d.claims) (funext fun c => ?_)
  rw [Function.comp_apply, Function.comp_apply, Option.map_map, ← hclaim c]
  rfl

/-- **A draft that is declared is rejected for the same as before**, in the same words. -/
theorem validate_declare : (d.declare id).toDraft.validate = d.validate := by
  have hname : (d.declare id).name = d.name := rfl
  have hparams : (d.declare id).typeParams = d.typeParams := rfl
  have htype : (d.declare id).type.render = d.type.render := TypeExpr.render_bind _ _
  rw [validate, validate, exposedVars_declare, foreignVar?_declare, hname, hparams, htype]
  cases d.foreignVar? with
  | none => rfl
  | some e =>
    cases d.typeParams.find? fun p => !d.exposedVars.contains p with
    | some unused => rfl
    | none => simp only [Option.map_some, Claim.render_bind]

/-- **What was declared is declared again as it is.** -/
theorem declare_toDraft (d : Draft) (id id' : Nat) :
    (d.declare id).toDraft.declare id' = d.declare id' := by
  have hclaims : (d.claims.map (Claim.bind d.typeParams)).map (Claim.bind d.typeParams) =
      d.claims.map (Claim.bind d.typeParams) := by
    rw [List.map_map]
    exact List.map_congr_left fun c _ => c.bind_bind d.typeParams
  unfold declare
  simp only [TypeExpr.bind_bind, hclaims]

/-- **Declaring again changes nothing.** A declaration taken for a draft and declared again is the
declaration of the draft; all three are templates or none is; and the draft is accepted or rejected
as it was, in the same words. Behind this, binding parameters is idempotent. -/
theorem declaring_again_changes_nothing :
    (∀ (d : Draft) (id id' : Nat), (d.declare id).toDraft.declare id' = d.declare id' ∧
      (d.declare id).isTemplate = d.isTemplate ∧
      ((d.declare id).toDraft.declare id').isTemplate = d.isTemplate ∧
      (d.declare id).toDraft.validate = d.validate) ∧
    ∀ (ps : List String) (t : TypeExpr), (t.bind ps).bind ps = t.bind ps := by
  refine ⟨fun d id id' => ⟨d.declare_toDraft id id', d.isTemplate_declare id, ?_,
    validate_declare⟩, TypeExpr.bind_bind⟩
  rw [declare_toDraft, isTemplate_declare]

end Draft

end Wiring
