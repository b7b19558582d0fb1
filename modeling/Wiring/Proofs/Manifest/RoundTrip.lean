import Wiring.Manifest.Encoding
import Wiring.Proofs.Value.Encoding
/-!
# Manifests are read back from what is written

What is read as a manifest can be written (`Manifest.writable_of_ofValue`): its types come from
written types, so they have no variables and have names as they are read, and its numbers fit the
words that hold them. Reading the record of such a manifest gives it back
(`Manifest.yields_toValue`), with every part that is left out because it has its usual value. So the
manifest comes back from its JSON text (`Manifest.json_round_trip`).

For each record there are three facts: what is read is writable, what is written is a JSON value,
and reading it gives the record back.
-/

namespace Wiring

open Resolver (bind_eq_ok)
open Value
open FieldReader (yields_required yields_optional yields_optional_unless yields_nullable yields_flag
  exists_of_required exists_of_optional_asList exists_of_optional_asOption exists_of_nullable
  eq_or_exists_of_optional)

variable (decimal : String → Option Float) {d : Dialect} {v : Value}

/-! ## Types and claims -/

theorem Value.writable_of_asType {t : TypeExpr} (h : v.asType = .ok t) : t.Writable := by
  obtain ⟨s, -, h⟩ := bind_eq_ok.1 h
  split at h
  · next hp =>
    cases h
    exact TypeExpr.writable_of_parse hp
  · cases h

theorem Value.lt_of_asNatBelow {bound n : Nat} (h : v.asNatBelow bound = .ok n) : n < bound := by
  unfold asNatBelow at h
  split at h
  · split at h
    · cases h
      assumption
    · cases h
  · cases h

theorem Claim.writable_of_ofValue {c : Claim} (h : Claim.ofValue d v = .ok c) :
    c.type.Writable := by
  obtain ⟨fs, h⟩ := exists_of_asRecord h
  simp only [FieldReader.seq_eq_ok_iff, FieldReader.map_eq_ok_iff] at h
  obtain ⟨_, _, ⟨_, _, ⟨t, ht, rfl⟩, -, rfl⟩, -, rfl⟩ := h
  obtain ⟨w, hw⟩ := exists_of_required ht
  exact writable_of_asType hw

/-! ## The table of types -/

/-- Each kind is read from its word. -/
theorem TypeKind.ofWord?_render (k : TypeKind) : ofWord? k.render = some k := by
  cases k <;> rfl

namespace TypeInfo

/-- The types are written as they are read. -/
structure Writable (info : TypeInfo) : Prop where
  supertypes : ∀ t ∈ info.supertypes, t.Writable
  wraps : ∀ t, info.wraps = some t → t.Writable
  intercepts : ∀ t, info.intercepts = some t → t.Writable
  constructor : ∀ cs, info.constructor = some cs → ∀ c ∈ cs, c.type.Writable

theorem writable_of_ofValue {info : TypeInfo} (h : TypeInfo.ofValue d v = .ok info) :
    info.Writable := by
  obtain ⟨fs, h⟩ := exists_of_asRecord h
  simp only [FieldReader.seq_eq_ok_iff, FieldReader.map_eq_ok_iff] at h
  obtain ⟨_, tags, ⟨_, constructor, ⟨_, builtin, ⟨_, optional, ⟨_, intercepts, ⟨_, wraps,
    ⟨_, supertypes, ⟨_, params, ⟨kind, -, rfl⟩, -, rfl⟩, hs, rfl⟩, hw, rfl⟩, hi, rfl⟩, -, rfl⟩,
    -, rfl⟩, hc, rfl⟩, -, rfl⟩ := h
  refine ⟨fun t ht => ?_, ?_, ?_, ?_⟩
  · obtain ⟨w, hw⟩ := exists_of_optional_asList hs t ht
    exact writable_of_asType hw
  · rintro t rfl
    obtain ⟨w, hw⟩ := exists_of_optional_asOption hw
    exact writable_of_asType hw
  · rintro t rfl
    obtain ⟨w, hw⟩ := exists_of_optional_asOption hi
    exact writable_of_asType hw
  · rintro cs rfl c hmem
    obtain ⟨w, hw⟩ := exists_of_optional_asOption hc
    obtain ⟨w, hw⟩ := exists_of_asList hw c hmem
    exact Claim.writable_of_ofValue hw

theorem isJson_toValue (info : TypeInfo) : info.toValue.IsJson decimal := by
  have htype (o : Option TypeExpr) : (ofOption (fun t => text t.render) o).IsJson decimal :=
    isJson_ofOption fun t _ => isJson_text t.render
  have hclaims : (ofOption (fun cs => list (cs.map Claim.toValue)) info.constructor).IsJson
      decimal := isJson_ofOption fun cs _ => by simp [Claim.isJson_toValue]
  simp [toValue, htype, hclaims]

/-- Reading the record of a description gives the description back. -/
theorem yields_toValue {info : TypeInfo} (h : info.Writable) :
    info.toValue.Yields (TypeInfo.ofValue d) info := by
  have hj := info.isJson_toValue fun _ => none
  obtain ⟨kind, params, supertypes, wraps, intercepts, optional, builtin, constructor, tags⟩ := info
  have hsupertypes : (texts (supertypes.map TypeExpr.render)).Yields (asList asType)
      supertypes := by
    rw [texts, List.map_map]
    exact yields_list fun t ht => yields_type (h.supertypes t ht)
  have htype (o : Option TypeExpr) (ho : ∀ t, o = some t → t.Writable) :
      (ofOption (fun t => text t.render) o).Yields (asOption asType) o :=
    yields_option (fun t ht => yields_type (ho t ht)) fun _ => Value.noConfusion
  have hclaims : (ofOption (fun cs => list (cs.map Claim.toValue)) constructor).Yields
      (asOption (asList (Claim.ofValue d))) constructor :=
    yields_option (fun cs hcs => yields_list fun c hc =>
      Claim.yields_toValue (h.constructor cs hcs c hc)) fun _ => Value.noConfusion
  exact yields_record hj ((((((((
    (yields_optional (by simp) (yields_word kind.ofWord?_render)).map.seq
    (yields_optional (by simp) (yields_texts params))).seq
    (yields_optional (by simp) hsupertypes)).seq
    (yields_optional (by simp) (htype wraps h.wraps))).seq
    (yields_optional (by simp) (htype intercepts h.intercepts))).seq
    (yields_optional (by simp) (yields_bool optional))).seq
    (yields_optional (by simp) (yields_bool builtin))).seq
    (yields_optional (by simp) hclaims)).seq
    (FieldReader.yields_tags (by simp)))
    ((HasNames.refl ["kind", "params", "supertypes", "wraps", "intercepts", "optional", "builtin",
      "constructor"]).append (HasNames.refl ["tags"]).unless) (by decide)

end TypeInfo

namespace Universe

theorem writable_of_ofValue {u : Universe} (h : Universe.ofValue d v = .ok u) :
    ∀ e ∈ u.types.toList, e.2.Writable := by
  obtain ⟨types, ht, h⟩ := bind_eq_ok.1 h
  cases h
  intro e he
  obtain ⟨w, hw⟩ := exists_of_asMap ht e he
  exact TypeInfo.writable_of_ofValue hw

theorem eq_empty_of_isEmpty {u : Universe} (h : u.types.isEmpty = true) : u = {} := by
  obtain ⟨entries, sorted⟩ := u
  obtain rfl := List.isEmpty_iff.1 h
  rfl

theorem isJson_toValue (u : Universe) : u.toValue.IsJson decimal :=
  isJson_map fun e _ => e.2.isJson_toValue decimal

/-- Reading the record of a table gives the table back. -/
theorem yields_toValue {u : Universe} (h : ∀ e ∈ u.types.toList, e.2.Writable) :
    u.toValue.Yields (Universe.ofValue d) u := by
  have htypes : u.toValue.Yields (asMap (TypeInfo.ofValue d)) u.types :=
    yields_map fun e he => TypeInfo.yields_toValue (h e he)
  intro b
  rw [Universe.ofValue, htypes b]
  rfl

end Universe

/-! ## Components, extensions and hints -/

namespace ComponentSpec

/-- The types are written as they are read. -/
structure Writable (c : ComponentSpec) : Prop where
  type : c.type.Writable
  claims : ∀ q ∈ c.claims, q.type.Writable

theorem writable_of_ofValue {c : ComponentSpec} (h : ComponentSpec.ofValue d v = .ok c) :
    c.Writable := by
  obtain ⟨fs, h⟩ := exists_of_readFields h
  simp only [FieldReader.seq_eq_ok_iff, FieldReader.map_eq_ok_iff] at h
  obtain ⟨_, _, ⟨_, _, ⟨_, _, ⟨_, _, ⟨_, claims, ⟨_, _, ⟨_, type, ⟨_, -, rfl⟩, ht, rfl⟩, -, rfl⟩,
    hc, rfl⟩, -, rfl⟩, -, rfl⟩, -, rfl⟩, -, rfl⟩ := h
  refine ⟨?_, fun q hq => ?_⟩
  · obtain ⟨w, hw⟩ := exists_of_required ht
    exact writable_of_asType hw
  · obtain ⟨w, hw⟩ := exists_of_optional_asList hc q hq
    exact Claim.writable_of_ofValue hw

theorem isJson_toValue (c : ComponentSpec) : c.toValue.IsJson decimal := by
  cases h : c.moduleName <;> simp [toValue, h, Claim.isJson_toValue]

theorem hasNames_module (o : Option String) :
    HasNames (match o with
      | some m => [("module", text m)]
      | none => []) ["module"] := by
  cases o with
  | none => exact List.nil_sublist _
  | some m => exact .refl _

/-- Reading the record of a component gives the component back. -/
theorem yields_toValue {c : ComponentSpec} (h : c.Writable) :
    c.toValue.Yields (ComponentSpec.ofValue d) c := by
  obtain ⟨name, type, tags, claims, typeParams, isDefault, isRoot, moduleName⟩ := c
  exact yields_closedRecord (((((((
    (yields_required (by simp) (yields_text name)).map.seq
    (yields_required (by simp) (yields_type h.type))).seq
    (FieldReader.yields_tags (by cases moduleName <;> simp))).seq
    (FieldReader.yields_list (by cases moduleName <;> simp)
      fun q hq => Claim.yields_toValue (h.claims q hq))).seq
    (FieldReader.yields_list (by cases moduleName <;> simp [texts]) fun s _ => yields_text s)).seq
    (yields_flag (by cases moduleName <;> simp))).seq
    (yields_flag (by cases moduleName <;> simp))).seq
    (FieldReader.yields_option (by cases moduleName <;> simp) (fun m _ => yields_text m)
      fun _ => Value.noConfusion))
    (((((((HasNames.refl ["name", "type"]).append (HasNames.refl ["tags"]).unless).append
      (HasNames.refl ["claims"]).unless).append (HasNames.refl ["type_params"]).unless).append
      (HasNames.refl ["default"]).when).append (HasNames.refl ["root"]).when).append
      (hasNames_module moduleName)) (by decide)

end ComponentSpec

namespace ExtensionSpec

/-- The types are written as they are read. -/
structure Writable (e : ExtensionSpec) : Prop where
  pattern : e.pattern.Writable
  component : e.component.Writable

theorem writable_of_ofValue {e : ExtensionSpec} (h : ExtensionSpec.ofValue d v = .ok e) :
    e.Writable := by
  obtain ⟨fs, h⟩ := exists_of_readFields h
  simp only [FieldReader.seq_eq_ok_iff, FieldReader.map_eq_ok_iff] at h
  obtain ⟨_, component, ⟨_, _, ⟨_, _, ⟨_, pattern, ⟨_, -, rfl⟩, hp, rfl⟩, -, rfl⟩, -, rfl⟩, hc,
    rfl⟩ := h
  refine ⟨?_, ?_⟩
  · obtain ⟨w, hw⟩ := exists_of_required hp
    exact writable_of_asType hw
  · obtain ⟨w, hw⟩ := exists_of_required hc
    exact ComponentSpec.writable_of_ofValue hw

theorem isJson_toValue (e : ExtensionSpec) : e.toValue.IsJson decimal := by
  simp [toValue, ComponentSpec.isJson_toValue]

/-- Reading the record of an extension gives the extension back. -/
theorem yields_toValue {e : ExtensionSpec} (h : e.Writable) :
    e.toValue.Yields (ExtensionSpec.ofValue d) e := by
  obtain ⟨name, pattern, typeParams, generate, component⟩ := e
  exact yields_closedRecord ((((
    (yields_required (by simp) (yields_text name)).map.seq
    (yields_required (by simp) (yields_type h.pattern))).seq
    (FieldReader.yields_list (by simp [texts]) fun s _ => yields_text s)).seq
    (yields_flag (by simp))).seq
    (yields_required (by simp) (ComponentSpec.yields_toValue h.component)))
    ((((HasNames.refl ["name", "type"]).append (HasNames.refl ["type_params"]).unless).append
      (HasNames.refl ["generate"]).when).append (.refl ["component"])) (by decide)

end ExtensionSpec

namespace ModuleHint

theorem writable_of_ofValue {h : ModuleHint} (hv : ModuleHint.ofValue d v = .ok h) :
    h.type.Writable := by
  obtain ⟨fs, hv⟩ := exists_of_asRecord hv
  simp only [FieldReader.seq_eq_ok_iff, FieldReader.map_eq_ok_iff] at hv
  obtain ⟨_, _, ⟨_, _, ⟨t, ht, rfl⟩, -, rfl⟩, -, rfl⟩ := hv
  obtain ⟨w, hw⟩ := exists_of_required ht
  exact writable_of_asType hw

theorem isJson_toValue (h : ModuleHint) : h.toValue.IsJson decimal := by simp [toValue]

/-- Reading the record of a hint gives the hint back. -/
theorem yields_toValue {h : ModuleHint} (ht : h.type.Writable) :
    h.toValue.Yields (ModuleHint.ofValue d) h := by
  have hj := h.isJson_toValue fun _ => none
  obtain ⟨type, tags, message⟩ := h
  exact yields_record hj
    (((yields_required (by simp) (yields_type ht)).map.seq
      (FieldReader.yields_tags (by simp))).seq (yields_required (by simp) (yields_text message)))
    (((HasNames.refl ["type"]).append (HasNames.refl ["tags"]).unless).append (.refl ["message"]))
    (by decide)

end ModuleHint

/-! ## Settings of a manifest -/

namespace HintOverrides

theorem maxSuggestions_lt_of_ofValue {o : HintOverrides} (h : HintOverrides.ofValue d v = .ok o) :
    ∀ n, o.maxSuggestions = some n → n < UInt64.size := by
  obtain ⟨fs, h⟩ := exists_of_readFields h
  simp only [FieldReader.seq_eq_ok_iff, FieldReader.map_eq_ok_iff] at h
  obtain ⟨_, _, ⟨_, _, ⟨_, -, rfl⟩, -, rfl⟩, hn, rfl⟩ := h
  rintro n rfl
  obtain ⟨w, hw⟩ := exists_of_nullable hn
  exact lt_of_asNatBelow hw

variable {decimal}

theorem isJson_toValue {o : HintOverrides} (hn : ∀ n, o.maxSuggestions = some n → n < UInt64.size)
    (hx : ∀ x, o.similarityThreshold = some x → Json.Exact decimal x) :
    o.toValue.IsJson decimal := by
  have henabled : (ofOption bool o.enabled).IsJson decimal :=
    isJson_ofOption fun b _ => isJson_bool b
  have hthreshold : (ofOption float o.similarityThreshold).IsJson decimal :=
    isJson_ofOption fun x h => isJson_float.2 (hx x h)
  have hmax : (ofOption nat o.maxSuggestions).IsJson decimal :=
    isJson_ofOption fun n h => isJson_nat (hn n h)
  simp [toValue, henabled, hthreshold, hmax]

/-- Reading the record of overrides gives the overrides back. -/
theorem yields_toValue {o : HintOverrides} (hn : ∀ n, o.maxSuggestions = some n → n < UInt64.size) :
    o.toValue.Yields (HintOverrides.ofValue d) o := by
  obtain ⟨enabled, threshold, maxSuggestions⟩ := o
  have henabled : (ofOption bool enabled).Yields (asOption asBool) enabled :=
    yields_option (fun b _ => yields_bool b) fun _ => Value.noConfusion
  have hthreshold : (ofOption float threshold).Yields (asOption asFloat) threshold :=
    yields_option (fun x _ => yields_float x) fun _ => Value.noConfusion
  have hmax : (ofOption nat maxSuggestions).Yields (asOption asWord64) maxSuggestions :=
    yields_option (fun n h => yields_nat (hn n h)) fun _ => Value.noConfusion
  exact yields_closedRecord (((yields_nullable (by simp) henabled).map.seq
    (yields_nullable (by simp) hthreshold)).seq (yields_nullable (by simp) hmax)) (.refl _)
    (by decide)

end HintOverrides

namespace Overrides

/-- The numbers fit their words. -/
structure Writable (o : Overrides) : Prop where
  maxRounds : ∀ n, o.maxRounds = some n → n < UInt32.size
  maxForkDepth : ∀ n, o.maxForkDepth = some n → n < UInt64.size
  hints : ∀ h n, o.hints = some h → h.maxSuggestions = some n → n < UInt64.size

/-- The threshold that is set. -/
def threshold? (o : Overrides) : Option Float := o.hints.bind (·.similarityThreshold)

theorem writable_of_ofValue {o : Overrides} (h : Overrides.ofValue d v = .ok o) : o.Writable := by
  obtain ⟨fs, h⟩ := exists_of_readFields h
  simp only [FieldReader.seq_eq_ok_iff, FieldReader.map_eq_ok_iff] at h
  obtain ⟨_, _, ⟨_, _, ⟨_, _, ⟨_, hr, rfl⟩, hd, rfl⟩, -, rfl⟩, hh, rfl⟩ := h
  refine ⟨?_, ?_, ?_⟩
  · rintro n rfl
    obtain ⟨w, hw⟩ := exists_of_nullable hr
    exact lt_of_asNatBelow hw
  · rintro n rfl
    obtain ⟨w, hw⟩ := exists_of_nullable hd
    exact lt_of_asNatBelow hw
  · rintro o n rfl hn
    obtain ⟨w, hw⟩ := exists_of_nullable hh
    exact HintOverrides.maxSuggestions_lt_of_ofValue hw n hn

variable {decimal}

theorem isJson_toValue {o : Overrides} (h : o.Writable)
    (hx : ∀ x, o.threshold? = some x → Json.Exact decimal x) : o.toValue.IsJson decimal := by
  have hrounds : (ofOption nat o.maxRounds).IsJson decimal :=
    isJson_ofOption fun n hn => isJson_nat ((h.maxRounds n hn).trans (by decide))
  have hdepth : (ofOption nat o.maxForkDepth).IsJson decimal :=
    isJson_ofOption fun n hn => isJson_nat (h.maxForkDepth n hn)
  have htag : (ofOption text o.proxyTag).IsJson decimal := isJson_ofOption fun s _ => isJson_text s
  have hhints : (ofOption HintOverrides.toValue o.hints).IsJson decimal :=
    isJson_ofOption fun a ha => HintOverrides.isJson_toValue (fun n => h.hints a n ha)
      fun x e => hx x (by rw [threshold?, ha]; exact e)
  simp [toValue, hrounds, hdepth, htag, hhints]

/-- Reading the record of overrides gives the overrides back. -/
theorem yields_toValue {o : Overrides} (h : o.Writable) :
    o.toValue.Yields (Overrides.ofValue d) o := by
  obtain ⟨maxRounds, maxForkDepth, proxyTag, hints⟩ := o
  have hrounds : (ofOption nat maxRounds).Yields (asOption asWord32) maxRounds :=
    yields_option (fun n hn => yields_nat (h.maxRounds n hn)) fun _ => Value.noConfusion
  have hdepth : (ofOption nat maxForkDepth).Yields (asOption asWord64) maxForkDepth :=
    yields_option (fun n hn => yields_nat (h.maxForkDepth n hn)) fun _ => Value.noConfusion
  have htag : (ofOption text proxyTag).Yields (asOption asText) proxyTag :=
    yields_option (fun s _ => yields_text s) fun _ => Value.noConfusion
  have hhints : (ofOption HintOverrides.toValue hints).Yields
      (asOption (HintOverrides.ofValue d)) hints :=
    yields_option (fun a ha => HintOverrides.yields_toValue fun n => h.hints a n ha)
      fun _ => Value.noConfusion
  exact yields_closedRecord ((((yields_nullable (by simp) hrounds).map.seq
    (yields_nullable (by simp) hdepth)).seq (yields_nullable (by simp) htag)).seq
    (yields_nullable (by simp) hhints)) (.refl _) (by decide)

end Overrides

/-! ## Manifests -/

namespace Manifest

/-- The types are written as they are read, and the numbers fit their words. -/
structure Writable (m : Manifest) : Prop where
  overrides : ∀ o, m.overrides = some o → o.Writable
  types : ∀ e ∈ m.types.types.toList, e.2.Writable
  components : ∀ c ∈ m.components, c.Writable
  extensions : ∀ e ∈ m.extensions, e.Writable
  hints : ∀ h ∈ m.hints, h.type.Writable

/-- The threshold that is set. -/
def threshold? (m : Manifest) : Option Float := m.overrides.bind (·.threshold?)

/-- What is read can be written. -/
theorem writable_of_ofValue {m : Manifest} (h : Manifest.ofValue d v = .ok m) : m.Writable := by
  obtain ⟨fs, h⟩ := exists_of_readFields h
  simp only [FieldReader.seq_eq_ok_iff, FieldReader.map_eq_ok_iff] at h
  obtain ⟨_, hints, ⟨_, extensions, ⟨_, components, ⟨_, types, ⟨overrides, ho, rfl⟩, ht, rfl⟩, hc,
    rfl⟩, he, rfl⟩, hh, rfl⟩ := h
  refine ⟨?_, ?_, fun c hmem => ?_, fun e hmem => ?_, fun x hmem => ?_⟩
  · rintro o rfl
    obtain ⟨w, hw⟩ := exists_of_optional_asOption ho
    exact Overrides.writable_of_ofValue hw
  · rcases eq_or_exists_of_optional ht with rfl | ⟨w, hw⟩
    · exact List.forall_mem_nil _
    · exact Universe.writable_of_ofValue hw
  · obtain ⟨w, hw⟩ := exists_of_optional_asList hc c hmem
    exact ComponentSpec.writable_of_ofValue hw
  · obtain ⟨w, hw⟩ := exists_of_optional_asList he e hmem
    exact ExtensionSpec.writable_of_ofValue hw
  · obtain ⟨w, hw⟩ := exists_of_optional_asList hh x hmem
    exact ModuleHint.writable_of_ofValue hw

variable {decimal}

theorem isJson_toValue {m : Manifest} (h : m.Writable)
    (hx : ∀ x, m.threshold? = some x → Json.Exact decimal x) : m.toValue.IsJson decimal := by
  have hoverrides (o : Overrides) (ho : m.overrides = some o) : o.toValue.IsJson decimal :=
    o.isJson_toValue (h.overrides o ho) fun x e => hx x (by rw [threshold?, ho]; exact e)
  have htypes := m.types.isJson_toValue decimal
  have hcomponents := ComponentSpec.isJson_toValue decimal
  have hextensions := ExtensionSpec.isJson_toValue decimal
  have hhints := ModuleHint.isJson_toValue decimal
  cases ho : m.overrides with
  | none => simp [toValue, ho, htypes, hcomponents, hextensions, hhints]
  | some o => simp [toValue, ho, hoverrides o ho, htypes, hcomponents, hextensions, hhints]

theorem hasNames_resolver (o : Option Overrides) :
    HasNames (match o with
      | some o => [("resolver", o.toValue)]
      | none => []) ["resolver"] := by
  cases o with
  | none => exact List.nil_sublist _
  | some o => exact .refl _

/-- Reading the record of a manifest gives the manifest back. -/
theorem yields_toValue {m : Manifest} (h : m.Writable) :
    m.toValue.Yields (Manifest.ofValue d) m := by
  obtain ⟨overrides, types, components, extensions, hints⟩ := m
  have hcomponents : (list (components.map ComponentSpec.toValue)).Yields
      (asList (ComponentSpec.ofValue d)) components :=
    yields_list fun c hc => ComponentSpec.yields_toValue (h.components c hc)
  exact yields_closedRecord (((((
    FieldReader.yields_option (by cases overrides <;> simp)
      (fun o ho => Overrides.yields_toValue (h.overrides o ho)) fun _ => Value.noConfusion).map.seq
    (yields_optional_unless (c := types.types.isEmpty) (by cases overrides <;> simp)
      Universe.eq_empty_of_isEmpty fun _ => Universe.yields_toValue h.types)).seq
    (yields_optional (by cases overrides <;> simp) hcomponents)).seq
    (FieldReader.yields_list (by cases overrides <;> simp)
      fun e he => ExtensionSpec.yields_toValue (h.extensions e he))).seq
    (FieldReader.yields_list (by cases overrides <;> simp)
      fun x hx => ModuleHint.yields_toValue (h.hints x hx)))
    (((((hasNames_resolver overrides).append (HasNames.refl ["types"]).unless).append
      (.refl ["components"])).append (HasNames.refl ["extensions"]).unless).append
      (HasNames.refl ["hints"]).unless) (by decide)

/-- **Manifests round-trip.** What is read as a manifest in any format and written as JSON, on one
line or on several, is read from there as the same manifest, provided that a threshold, if there is
one, is finite and is read as it is written. -/
theorem json_round_trip {m : Manifest} (h : Manifest.ofValue d v = .ok m)
    (hx : ∀ x, m.threshold? = some x → Json.Exact decimal x) :
    ∀ text ∈ [Json.compact m.toValue, Json.pretty m.toValue],
      (Json.read decimal text).map (Manifest.ofValue .json) = some (.ok m) := by
  have hw := writable_of_ofValue h
  have hj := isJson_toValue hw hx
  have hread : Manifest.ofValue .json m.toValue = .ok m := yields_toValue hw false
  rw [List.forall_mem_cons, List.forall_mem_singleton, Json.read_compact hj, Json.read_pretty hj,
    Option.map_some, hread]
  exact ⟨rfl, rfl⟩

/-- A manifest as it may be written: fields left out, another word for a kind, blanks in a type, a
label twice. -/
def quarryValue : Value :=
  .record
    [("resolver", .record
      [("max_rounds", .int 3), ("proxy_tag", .null),
       ("hints", .record [("similarity_threshold", .float 0.5)])]),
     ("types", .record
      [("Stone", .record [("kind", .text "open"), ("supertypes", .list [.text "Rock"]),
         ("constructor", .list [])]),
       ("Crate", .record [("params", .list [.text "T"]), ("wraps", .text "T")])]),
     ("components", .list
      [.record
        [("name", .text "mason"), ("type", .text "Mason"),
         ("claims", .list
          [.record [("type", .text "Crate< Stone >"), ("kind", .text "one"),
             ("tags", .list [.text "b", .text "a", .text "b"])]]),
         ("root", .bool true), ("module", .text "yard")]]),
     ("hints", .list [.record [("type", .text "Slate"), ("message", .text "split\nit")]])]

/-- The manifest that is read. -/
def quarry : Manifest where
  overrides := some { maxRounds := some 3, hints := some { similarityThreshold := some 0.5 } }
  types := ⟨.ofList
    [("Crate", { params := ["T"], wraps := some (.named "T" []) }),
     ("Stone", { kind := .extensible, supertypes := [.named "Rock" []], constructor := some [] })]⟩
  components :=
    [{ name := "mason", type := .named "Mason" [],
       claims := [⟨.named "Crate" [.named "Stone" []], .ofList ["a", "b"], .required⟩],
       isRoot := true, moduleName := some "yard" }]
  hints := [⟨.named "Slate" [], ∅, "split\nit"⟩]

/-- Reads a decimal without a sign and without an exponent. -/
def unsigned (w : String) : Option Float :=
  match w.toList.span (· != '.') with
  | (whole, '.' :: fraction) =>
    if (whole ++ fraction).all Char.isDigit then
      some (.ofScientific (Nat.ofDigitChars 10 (whole ++ fraction) 0) true fraction.length)
    else none
  | _ => none

theorem exact_half : Json.Exact unsigned 0.5 := by
  have hpositional : Decimal.positional 0.5 = "0.5" := by decide +kernel
  have hfinite : ((0.5 : Float).isNaN || (0.5 : Float).isInf) = false := by decide +kernel
  have hnumber : Json.number 0.5 = "0.5" := by
    have hpoint : "0.5".contains '.' = true := by
      rw [String.contains_char_eq]
      rfl
    rw [Json.number, hfinite, if_neg Bool.false_ne_true, hpositional]
    exact if_pos hpoint
  exact ⟨hfinite, by rw [hnumber]; rfl⟩

theorem json_round_trip_quarry : Manifest.ofValue .toml quarryValue = .ok quarry ∧
    quarry.threshold? = some 0.5 ∧ Json.Exact unsigned 0.5 ∧
    (Json.read unsigned (Json.compact quarry.toValue)).map (Manifest.ofValue .json) =
      some (.ok quarry) := by
  have h : Manifest.ofValue .toml quarryValue = .ok quarry := rfl
  have hx (x : Float) (e : quarry.threshold? = some x) : Json.Exact unsigned x :=
    Option.some.inj e ▸ exact_half
  exact ⟨h, rfl, exact_half, json_round_trip h hx _ List.mem_cons_self⟩

end Manifest

end Wiring
