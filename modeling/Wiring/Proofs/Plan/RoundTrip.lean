import Wiring.Plan.Encoding
import Wiring.Proofs.Value.Encoding
/-!
# Plans are read back from what is written

A plan is `Plan.Writable` if its types have no variables and names as they are read
(`TypeExpr.Writable`), and its numbers fit the words that hold them. Reading the record of such a
plan gives it back, whether or not the fields of the record are sorted (`Plan.yields_toValue`); so
it is for each part of it, down to the seven kinds of origins and of edges.
-/

namespace Wiring

open Value
open FieldReader (yields_pure yields_required yields_optional yields_nullable yields_flag)

variable (decimal : String → Option Float) {d : Dialect}

/-! ## Origins -/

namespace Origin

/-- The types are written as they are read, and the number fits its word. -/
def Writable : Origin → Prop
  | .promisedProxy t => t.Writable
  | .templateInstance id s => id < UInt32.size ∧ ∀ e ∈ s.toList, e.2.Writable
  | .annotated | .factory _ | .extension _ | .optional | .discoveredFinal => True

theorem isJson_toValue {o : Origin} (h : o.Writable) : o.toValue.IsJson decimal := by
  cases o with
  | templateInstance id s =>
    have hid : (nat id).IsJson decimal := isJson_nat (h.1.trans (by decide))
    have hs : (record (s.map fun t => text t.render).toList).IsJson decimal :=
      isJson_map fun e _ => isJson_text e.2.render
    simp [toValue, hid, hs]
  | _ => simp [toValue]

/-- Reading the record of an origin gives the origin back. -/
theorem yields_toValue {o : Origin} (h : o.Writable) : o.toValue.Yields Origin.ofValue o := by
  have hj := isJson_toValue (fun _ => none) h
  cases o with
  | annotated | optional | discoveredFinal =>
    exact yields_tagged hj rfl yields_pure (.refl _) (by decide)
  | factory n | extension n =>
    exact yields_tagged hj rfl (yields_required (by simp) (yields_text n)).map (.refl _) (by decide)
  | promisedProxy t =>
    exact yields_tagged hj rfl (yields_required (by simp) (yields_type h)).map (.refl _) (by decide)
  | templateInstance id s =>
    have hs : (record (s.map fun t => text t.render).toList).Yields (asMap asType) s :=
      yields_map fun e he => yields_type (h.2 e he)
    exact yields_tagged hj rfl ((yields_required (by simp) (yields_nat h.1)).map.seq
      (yields_required (by simp) hs)) (.refl _) (by decide)

end Origin

/-! ## Edges -/

namespace Target

theorem isJson_toValue {t : Target} (h : t.index < UInt64.size) : t.toValue.IsJson decimal := by
  simp [toValue, isJson_nat h]

/-- Reading the record of a reference gives the reference back. -/
theorem yields_toValue {t : Target} (h : t.index < UInt64.size) :
    t.toValue.Yields (Target.ofValue d) t := by
  have hj := isJson_toValue (fun _ => none) h
  obtain ⟨index, unwrap⟩ := t
  exact yields_record hj
    ((yields_required (by simp) (yields_nat h)).map.seq (yields_flag (by simp)))
    ((HasNames.refl ["index"]).append (HasNames.refl ["unwrap"]).when) (by decide)

end Target

namespace Edge

/-- The types are written as they are read, and the numbers fit their words. -/
def Writable : Edge → Prop
  | .reference c t | .valueOf c t | .promiseOf c t => c.type.Writable ∧ t.index < UInt64.size
  | .absent c | .typeToken c => c.type.Writable
  | .allOf c ts => c.type.Writable ∧ ∀ t ∈ ts, t.index < UInt64.size
  | .proxyParameter c id t =>
    c.type.Writable ∧ id < UInt32.size ∧ ∀ i, t = some i → i < UInt64.size

theorem isJson_toValue {e : Edge} (h : e.Writable) : e.toValue.IsJson decimal := by
  have hclaim := Claim.isJson_toValue decimal
  cases e with
  | reference c t | valueOf c t | promiseOf c t =>
    simp [toValue, hclaim, Target.isJson_toValue decimal h.2]
  | absent c | typeToken c => simp [toValue, hclaim]
  | allOf c ts =>
    have hts (t : Target) (ht : t ∈ ts) : t.toValue.IsJson decimal :=
      t.isJson_toValue decimal (h.2 t ht)
    simpa [toValue, hclaim] using hts
  | proxyParameter c id t =>
    have hid : (nat id).IsJson decimal := isJson_nat (h.2.1.trans (by decide))
    have ht : (ofOption nat t).IsJson decimal := isJson_ofOption fun i hi => isJson_nat (h.2.2 i hi)
    simp [toValue, hclaim, hid, ht]

/-- Reading the record of an edge gives the edge back. -/
theorem yields_toValue {e : Edge} (h : e.Writable) : e.toValue.Yields Edge.ofValue e := by
  have hj := isJson_toValue (fun _ => none) h
  cases e with
  | reference c t | valueOf c t | promiseOf c t =>
    exact yields_tagged hj rfl ((yields_required (by simp) (Claim.yields_toValue h.1)).map.seq
      (yields_required (by simp) (Target.yields_toValue h.2))) (.refl _) (by decide)
  | absent c | typeToken c =>
    exact yields_tagged hj rfl (yields_required (by simp) (Claim.yields_toValue h)).map (.refl _)
      (by decide)
  | allOf c ts =>
    have hts : (list (ts.map Target.toValue)).Yields (asList (Target.ofValue .tagged)) ts :=
      yields_list fun t ht => Target.yields_toValue (h.2 t ht)
    exact yields_tagged hj rfl ((yields_required (by simp) (Claim.yields_toValue h.1)).map.seq
      (yields_required (by simp) hts)) (.refl _) (by decide)
  | proxyParameter c id t =>
    have ht : (ofOption nat t).Yields (asOption asWord64) t :=
      yields_option (fun i hi => yields_nat (h.2.2 i hi)) fun _ => Value.noConfusion
    exact yields_tagged hj rfl (((yields_required (by simp) (Claim.yields_toValue h.1)).map.seq
      (yields_required (by simp) (yields_nat h.2.1))).seq (yields_nullable (by simp) ht)) (.refl _)
      (by decide)

end Edge

/-! ## Components and plans -/

namespace Component

/-- The types are written as they are read, and the numbers fit their words. -/
structure Writable (c : Component) : Prop where
  index : c.index < UInt64.size
  origin : c.origin.Writable
  type : c.type.Writable
  dependencies : ∀ e ∈ c.dependencies, e.Writable
  interceptors : ∀ i ∈ c.interceptors, i < UInt64.size

theorem isJson_toValue {c : Component} (h : c.Writable) : c.toValue.IsJson decimal := by
  have hindex : (nat c.index).IsJson decimal := isJson_nat h.index
  have horigin := Origin.isJson_toValue decimal h.origin
  have hdependencies (e : Edge) (he : e ∈ c.dependencies) : e.toValue.IsJson decimal :=
    e.isJson_toValue decimal (h.dependencies e he)
  have hinterceptors (i : Nat) (hi : i ∈ c.interceptors) : (nat i).IsJson decimal :=
    isJson_nat (h.interceptors i hi)
  simpa [toValue, hindex, horigin] using ⟨hdependencies, fun _ => hinterceptors⟩

/-- Reading the record of a component gives the component back. -/
theorem yields_toValue {c : Component} (h : c.Writable) :
    c.toValue.Yields (Component.ofValue d) c := by
  have hj := isJson_toValue (fun _ => none) h
  obtain ⟨index, name, origin, type, tags, isRoot, dependencies, interceptors⟩ := c
  have hdependencies : (list (dependencies.map Edge.toValue)).Yields (asList Edge.ofValue)
      dependencies := yields_list fun e he => Edge.yields_toValue (h.dependencies e he)
  refine yields_record hj (((((((
    (yields_required (by simp) (yields_nat h.index)).map.seq
    (yields_required (by simp) (yields_text name))).seq
    (yields_required (by simp) (Origin.yields_toValue h.origin))).seq
    (yields_required (by simp) (yields_type h.type))).seq
    (FieldReader.yields_tags (by simp))).seq
    (yields_flag (by simp))).seq
    (yields_required (by simp) hdependencies)).seq
    (FieldReader.yields_list (by simp) fun i hi => yields_nat (h.interceptors i hi)))
    (((((HasNames.refl ["index", "name", "origin", "type"]).append
      (HasNames.refl ["tags"]).unless).append (HasNames.refl ["root"]).when).append
      (.refl ["dependencies"])).append (HasNames.refl ["interceptors"]).unless) (by decide)

end Component

namespace Plan

/-- All types are without variables and have names as they are read, and the numbers fit their
words. -/
structure Writable (p : Plan) : Prop where
  components : ∀ c ∈ p.components, c.Writable
  rounds : p.rounds < UInt32.size

theorem isJson_toValue {p : Plan} (h : p.Writable) : p.toValue.IsJson decimal := by
  have hcomponents (c : Component) (hc : c ∈ p.components) : c.toValue.IsJson decimal :=
    c.isJson_toValue decimal (h.components c hc)
  have hrounds : (nat p.rounds).IsJson decimal := isJson_nat (h.rounds.trans (by decide))
  simpa [toValue, hrounds] using hcomponents

/-- Reading the record of a plan gives the plan back. -/
theorem yields_toValue {p : Plan} (h : p.Writable) : p.toValue.Yields (Plan.ofValue d) p := by
  have hj := isJson_toValue (fun _ => none) h
  obtain ⟨components, rounds⟩ := p
  have hcomponents : (list (components.map Component.toValue)).Yields
      (asList (Component.ofValue d)) components :=
    yields_list fun c hc => Component.yields_toValue (h.components c hc)
  exact yields_record hj ((yields_required (by simp) hcomponents).map.seq
    (yields_required (by simp) (yields_nat h.rounds))) (.refl _) (by decide)

end Plan

end Wiring
