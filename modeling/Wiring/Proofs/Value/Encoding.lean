import Wiring.Claim.Encoding
import Wiring.Proofs.Json.RoundTrip
import Wiring.Proofs.TypeExpr.Grammar
import Wiring.Proofs.Universe.Ground
/-!
# Values that stand for data

A value yields `a` for a reader if the reader takes the value to `a`, and also the value with sorted
fields (`Value.Yields`); for readers of fields there is the same notion (`FieldReader.Yields`). What
yields what is put together as values are: from the parts of a list, a map or a record.

* `Value.field?` looks a field up, `Value.HasNames` says which names the fields of a record have.
  Both go through records that leave parts out.
* `FieldReader.yields_optional_unless` is about a field that is left out if it has its usual value.
* `Value.yields_record`, `Value.yields_closedRecord` and `Value.yields_tagged` go from the fields to
  the record.
* `Claim.yields_toValue`: claims, of which plans and manifests are full, are read back from what is
  written.
-/

namespace Wiring

/-! ## Maps and sets in their order -/

namespace NameMap

variable {α : Type}

/-- A look-up in the map of entries with different names is a look-up among the entries. -/
theorem lookup_toList_ofList {l : List (String × α)} (h : (l.map (·.1)).Nodup) (k : String) :
    (ofList l).toList.lookup k = l.lookup k := by
  have hfold (m : NameMap α) : (l.foldl (fun m e => m.insert e.1 e.2) m).get? k =
      (l.lookup k).or (m.get? k) := by
    induction l generalizing m with
    | nil => rfl
    | cons e l ih =>
      obtain ⟨he, hl⟩ := List.nodup_cons.1 h
      rw [List.foldl_cons, ih hl, get?_insert, lookup_cons_eq]
      by_cases hk : k = e.1
      · subst hk
        have hnone : l.lookup e.1 = none := by
          rw [List.lookup_eq_none_iff]
          rintro ⟨a, b⟩ hab
          exact bne_iff_ne.2 fun hne => he (List.mem_map.2 ⟨(a, b), hab, hne.symm⟩)
        simp [hnone]
      · simp [hk]
  exact (hfold empty).trans (Option.or_none)

theorem nodup_keys (m : NameMap α) : (m.toList.map (·.1)).Nodup := by
  refine List.pairwise_map.2 (m.sorted.imp fun {a b} hab hne => ?_)
  exact String.lt_irrefl _ (hne ▸ hab)

theorem lookup_map_snd {β : Type} (f : α → β) (l : List (String × α)) (k : String) :
    (l.map fun e => (e.1, f e.2)).lookup k = (l.lookup k).map f := by
  induction l with
  | nil => rfl
  | cons e l ih =>
    rw [List.map_cons, lookup_cons_eq, lookup_cons_eq, ih]
    split <;> rfl

/-- The map of a map's entries is this map. -/
@[simp] theorem ofList_toList (m : NameMap α) : ofList m.toList = m :=
  ext_get? fun k => lookup_toList_ofList m.nodup_keys k

end NameMap

namespace Tags

theorem insertLabel_of_lt {x : String} {l : List String} (h : ∀ y ∈ l, y < x) :
    insertLabel x l = l ++ [x] := by
  induction l with
  | nil => rfl
  | cons y l ih =>
    obtain ⟨hy, hl⟩ := List.forall_mem_cons.1 h
    have hlt : ¬x < y := fun hxy => String.lt_irrefl _ (String.lt_trans hxy hy)
    have hne : x ≠ y := fun e => String.lt_irrefl _ (e ▸ hy)
    rw [insertLabel, if_neg hlt, if_neg hne, ih hl, List.cons_append]

theorem labels_foldl_insert {l : List String} {t : Tags}
    (h : (t.labels ++ l).Pairwise (· < ·)) : (l.foldl insert t).labels = t.labels ++ l := by
  induction l generalizing t with
  | nil => exact (List.append_nil _).symm
  | cons x l ih =>
    have hins : (t.insert x).labels = t.labels ++ [x] :=
      insertLabel_of_lt fun y hy => (List.pairwise_append.1 h).2.2 y hy x List.mem_cons_self
    rw [List.foldl_cons, ih, hins, List.append_assoc, List.singleton_append]
    rwa [hins, List.append_assoc, List.singleton_append]

/-- The set of a set's labels is this set. -/
@[simp] theorem ofList_labels (t : Tags) : ofList t.labels = t := by
  have h : (ofList t.labels).labels = t.labels := labels_foldl_insert t.sorted
  generalize ofList t.labels = u at h ⊢
  cases t
  cases u
  cases h
  rfl

end Tags

/-! ## Fields of records -/

namespace Value

variable {α : Type} {decimal : String → Option Float} {v : Value} {b : Bool} {name : String}
  {names names' : List String} {fields fields' : List (String × Value)} {p : Prop} [Decidable p]

/-- The value of a field. -/
def field? (fields : List (String × Value)) (name : String) : Option Value := fields.lookup name

@[simp] theorem field?_nil : field? [] name = none := rfl

@[simp] theorem field?_cons {k : String} :
    field? ((k, v) :: fields) name = if name = k then some v else field? fields name :=
  NameMap.lookup_cons_eq _ _ _

@[simp] theorem field?_append :
    field? (fields ++ fields') name = (field? fields name).or (field? fields' name) :=
  List.lookup_append

@[simp] theorem field?_ite :
    field? (if p then fields else fields') name =
      if p then field? fields name else field? fields' name :=
  apply_ite (field? · name) p fields fields'

/-- The names of the fields are some of these names, in the same order. -/
def HasNames (fields : List (String × Value)) (names : List String) : Prop :=
  (fields.map (·.1)).Sublist names

theorem HasNames.nodup (h : HasNames fields names) (hn : names.Nodup) :
    (fields.map (·.1)).Nodup :=
  List.Sublist.nodup h hn

theorem HasNames.refl (names : List String) {fields : List (String × Value)}
    (h : fields.map (·.1) = names := by rfl) : HasNames fields names := by
  rw [HasNames, h]

theorem HasNames.append (h : HasNames fields names) (h' : HasNames fields' names') :
    HasNames (fields ++ fields') (names ++ names') := by
  rw [HasNames, List.map_append]
  exact List.Sublist.append h h'

theorem HasNames.unless (h : HasNames fields names) :
    HasNames (if p then [] else fields) names := by
  split
  · exact List.nil_sublist names
  · exact h

theorem HasNames.when (h : HasNames fields names) : HasNames (if p then fields else []) names := by
  split
  · exact h
  · exact List.nil_sublist names

/-! ## JSON values -/

@[simp] theorem isJson_null : null.IsJson decimal := .null

@[simp] theorem isJson_bool (x : Bool) : (bool x).IsJson decimal := .bool x

@[simp] theorem isJson_text (s : String) : (text s).IsJson decimal := .text s

@[simp] theorem isJson_int {n : Int} : (int n).IsJson decimal ↔ Json.Fits n :=
  ⟨fun | .int h => h, .int⟩

theorem isJson_nat {n : Nat} (h : n < UInt64.size) : (nat n).IsJson decimal :=
  isJson_int.2 ⟨by omega, by exact_mod_cast h⟩

@[simp] theorem isJson_float {x : Float} : (float x).IsJson decimal ↔ Json.Exact decimal x :=
  ⟨fun | .float h => h, .float⟩

@[simp] theorem isJson_list {items : List Value} :
    (list items).IsJson decimal ↔ ∀ v ∈ items, v.IsJson decimal :=
  ⟨fun | .list h => h, .list⟩

@[simp] theorem isJson_texts (ss : List String) : (texts ss).IsJson decimal := by simp [texts]

theorem isJson_record :
    (record fields).IsJson decimal ↔ ∀ e ∈ fields, e.2.IsJson decimal :=
  ⟨fun | .record h => h, .record⟩

@[simp] theorem isJson_record_nil : (record []).IsJson decimal := .record (List.forall_mem_nil _)

@[simp] theorem isJson_record_cons {k : String} :
    (record ((k, v) :: fields)).IsJson decimal ↔
      v.IsJson decimal ∧ (record fields).IsJson decimal := by
  rw [isJson_record, isJson_record, List.forall_mem_cons]

@[simp] theorem isJson_record_append :
    (record (fields ++ fields')).IsJson decimal ↔
      (record fields).IsJson decimal ∧ (record fields').IsJson decimal := by
  rw [isJson_record, isJson_record, isJson_record, List.forall_mem_append]

@[simp] theorem isJson_record_ite :
    (record (if p then fields else fields')).IsJson decimal ↔
      (p → (record fields).IsJson decimal) ∧ (¬p → (record fields').IsJson decimal) := by
  by_cases h : p <;> simp [h]

theorem isJson_ofOption {g : α → Value} {o : Option α}
    (h : ∀ a, o = some a → (g a).IsJson decimal) : (ofOption g o).IsJson decimal := by
  cases o with
  | none => exact isJson_null
  | some a => exact h a rfl

theorem isJson_map {g : α → Value} {m : NameMap α} (h : ∀ e ∈ m.toList, (g e.2).IsJson decimal) :
    (record (m.map g).toList).IsJson decimal :=
  isJson_record.2 (List.forall_mem_map.2 h)

theorem isAnyIllegible_eq_any (items : List Value) :
    isAnyIllegible items = items.any isIllegible := by
  induction items with
  | nil => rfl
  | cons v items ih => rw [isAnyIllegible, ih, List.any_cons]

theorem isAnyFieldIllegible_eq_any (fields : List (String × Value)) :
    isAnyFieldIllegible fields = fields.any fun e => e.2.isIllegible := by
  induction fields with
  | nil => rfl
  | cons e fields ih => rw [isAnyFieldIllegible, ih, List.any_cons]

theorem IsJson.isIllegible (h : v.IsJson decimal) : v.isIllegible = false := by
  induction h with
  | null | bool | int | float | text => rfl
  | list _ ih =>
    rw [Value.isIllegible, isAnyIllegible_eq_any, List.any_eq_false]
    simpa using ih
  | record _ ih =>
    rw [Value.isIllegible, isAnyFieldIllegible_eq_any, List.any_eq_false]
    simpa using ih

/-! ## Values with sorted fields -/

theorem canonicalItems_eq_map (items : List Value) :
    canonicalItems items = items.map canonical := by
  induction items with
  | nil => rfl
  | cons v items ih => rw [canonicalItems, ih, List.map_cons]

theorem canonicalFields_eq_map (fields : List (String × Value)) :
    canonicalFields fields = fields.map fun e => (e.1, e.2.canonical) := by
  induction fields with
  | nil => rfl
  | cons e fields ih => rw [canonicalFields, ih, List.map_cons]

/-- The value as it is, or with sorted fields. -/
def arrange (sorted : Bool) (v : Value) : Value := if sorted then v.canonical else v

@[simp] theorem arrange_null : null.arrange b = null := by cases b <;> rfl

@[simp] theorem arrange_bool (x : Bool) : (bool x).arrange b = bool x := by cases b <;> rfl

@[simp] theorem arrange_int (n : Int) : (int n).arrange b = int n := by cases b <;> rfl

@[simp] theorem arrange_float (x : Float) : (float x).arrange b = float x := by cases b <;> rfl

@[simp] theorem arrange_text (s : String) : (text s).arrange b = text s := by cases b <;> rfl

@[simp] theorem arrange_list (items : List Value) :
    (list items).arrange b = list (items.map (arrange b)) := by
  cases b with
  | false => exact congrArg list (List.map_id' items).symm
  | true => exact congrArg list (canonicalItems_eq_map items)

/-- The entries of a map stay where they are. -/
theorem arrange_map (g : α → Value) (m : NameMap α) :
    (record (m.map g).toList).arrange b = record (m.map fun a => (g a).arrange b).toList := by
  cases b with
  | false => rfl
  | true =>
    have hmap : canonicalFields (m.map g).toList = (m.map fun a => (g a).canonical).toList := by
      rw [canonicalFields_eq_map]
      exact List.map_map
    exact congrArg record (congrArg NameMap.toList (hmap ▸ NameMap.ofList_toList _))

/-- A field of a record is where it is looked for, and no other one comes in. -/
theorem exists_arrange_record (h : (fields.map (·.1)).Nodup) (b : Bool) :
    ∃ entries, (record fields).arrange b = record entries ∧
      (∀ n, field? entries n = (field? fields n).map (arrange b)) ∧
      ∀ e ∈ entries, ∃ v, (e.1, v) ∈ fields ∧ e.2 = v.arrange b := by
  cases b with
  | false => exact ⟨fields, rfl, fun n => Option.map_id'.symm, fun e he => ⟨e.2, he, rfl⟩⟩
  | true =>
    refine ⟨_, rfl, fun n => ?_, fun e he => ?_⟩
    · rw [field?, canonicalFields_eq_map, NameMap.lookup_toList_ofList (by rwa [List.map_map])]
      exact NameMap.lookup_map_snd canonical fields n
    · obtain ⟨d, hd, rfl⟩ := List.mem_map.1
        (canonicalFields_eq_map fields ▸ NameMap.mem_of_ofList he)
      exact ⟨d.2, hd, rfl⟩

theorem arrange_eq_null_iff : v.arrange b = null ↔ v = null := by
  cases b with
  | false => exact Iff.rfl
  | true => cases v <;> simp [arrange, canonical]

theorem IsJson.arrange (h : v.IsJson decimal) : (v.arrange b).IsJson decimal := by
  induction h with
  | null | bool | text => simp
  | int h => simpa using h
  | float h => simpa using h
  | list _ ih => simpa using ih
  | @record fields h ih =>
    cases b with
    | false => exact .record h
    | true =>
      refine .record fun e he => ?_
      obtain ⟨d, hd, rfl⟩ := List.mem_map.1
        (canonicalFields_eq_map fields ▸ NameMap.mem_of_ofList he)
      exact ih d hd

end Value

/-! ## Reading gives back what a value stands for -/

/-- Reading the value yields `a`, whether or not its fields are sorted. -/
def Value.Yields {α : Type} (f : Value → Except Fault α) (v : Value) (a : α) : Prop :=
  ∀ b, f (v.arrange b) = .ok a

/-- Reading the fields yields `a`, whether or not they are sorted. -/
def FieldReader.Yields {α : Type} (r : FieldReader α) (fields : List (String × Value)) (a : α) :
    Prop :=
  ∀ b entries,
    (∀ n, Value.field? entries n = (Value.field? fields n).map (Value.arrange b)) →
    r ⟨entries, true, false⟩ = .ok a

namespace Value

variable {α : Type} {f : Value → Except Fault α} {a : α} {d : Dialect}

theorem yields_text (s : String) : (text s).Yields asText s := fun b => by simp [asText]

theorem yields_bool (x : Bool) : (bool x).Yields asBool x := fun b => by simp [asBool]

theorem yields_nat {n bound : Nat} (h : n < bound) : (nat n).Yields (asNatBelow bound) n :=
  fun b => by
    rw [nat, arrange_int]
    exact if_pos h

theorem yields_float (x : Float) : (float x).Yields asFloat x := fun b => by simp [asFloat]

theorem yields_type {t : TypeExpr} (h : t.Writable) : (text t.render).Yields asType t := fun b => by
  simp [asType, asText, TypeExpr.parse_render h, bind, Except.bind]

theorem yields_word {g : String → Option α} {s : String} (h : g s = some a) :
    (text s).Yields (asWordOf g d) a := fun b => by
  simp [asWordOf, asWord, h, bind, Except.bind]

theorem mapM_map_eq_ok {α β ε : Type} {g : α → β} {f : β → Except ε α} {l : List α}
    (h : ∀ a ∈ l, f (g a) = .ok a) : (l.map g).mapM f = .ok l := by
  induction l with
  | nil => rfl
  | cons a l ih =>
    obtain ⟨ha, hl⟩ := List.forall_mem_cons.1 h
    rw [List.map_cons, List.mapM_cons, ha, ih hl]
    rfl

theorem yields_list {g : α → Value} {l : List α} (h : ∀ a ∈ l, (g a).Yields f a) :
    (list (l.map g)).Yields (asList f) l := by
  intro b
  rw [arrange_list, asList, List.map_map]
  exact mapM_map_eq_ok fun a ha => h a ha b

theorem yields_texts (ss : List String) : (texts ss).Yields asTexts ss :=
  yields_list fun s _ => yields_text s

theorem yields_tags (t : Tags) : (texts t.labels).Yields asTags t := fun b => by
  simp [asTags, yields_texts t.labels b, bind, Except.bind, pure, Except.pure]

theorem yields_some {v : Value} (h : v.Yields f a) (hn : v ≠ null) :
    v.Yields (asOption f) (some a) := by
  intro b
  have hb : v.arrange b ≠ null := fun e => hn (arrange_eq_null_iff.1 e)
  unfold asOption
  split
  · next e => exact absurd e hb
  · rw [h b]
    rfl

theorem yields_option {g : α → Value} {o : Option α} (h : ∀ a, o = some a → (g a).Yields f a)
    (hn : ∀ a, g a ≠ null) : (ofOption g o).Yields (asOption f) o := by
  cases o with
  | none =>
    intro b
    rw [ofOption, arrange_null, asOption]
  | some a => exact yields_some (h a rfl) (hn a)

theorem yields_map {g : α → Value} {m : NameMap α} (h : ∀ e ∈ m.toList, (g e.2).Yields f e.2) :
    (record (m.map g).toList).Yields (asMap f) m := by
  intro b
  have hentries : ((m.map fun a => (g a).arrange b).toList.mapM fun e => do
      return (e.1, ← f e.2)) = .ok m.toList :=
    mapM_map_eq_ok (g := fun e : String × α => (e.1, (g e.2).arrange b)) fun e he => by
      rw [h e he b]
      rfl
  rw [arrange_map, asMap, hentries]
  exact congrArg Except.ok (NameMap.ofList_toList m)

end Value

namespace FieldReader

variable {α β : Type} {r : FieldReader α} {fields : List (String × Value)} {name : String}
  {f : Value → Except Fault α} {v : Value} {a default : α}

theorem yields_pure : (pure a : FieldReader α).Yields fields a := fun _ _ _ => rfl

theorem Yields.seq {g : FieldReader (α → β)} {k : α → β} (hg : g.Yields fields k)
    (hr : r.Yields fields a) : (g <*> r).Yields fields (k a) := fun b entries h =>
  seq_eq_ok_iff.2 ⟨k, a, hg b entries h, hr b entries h, rfl⟩

theorem Yields.map {k : α → β} (hr : r.Yields fields a) : (k <$> r).Yields fields (k a) :=
  fun b entries h => map_eq_ok_iff.2 ⟨a, hr b entries h, rfl⟩

theorem seqRight_eq_ok {p : FieldReader Unit} {fs : Fields} (hp : p fs = .ok ())
    (hr : r fs = .ok a) : (p *> r) fs = .ok a :=
  seq_eq_ok_iff.2 ⟨id, a, map_eq_ok_iff.2 ⟨(), hp, rfl⟩, hr, rfl⟩

theorem yields_find? (hl : Value.field? fields name = some v) (hv : v.Yields f a) :
    (find? name f).Yields fields (some a) := by
  intro b entries h
  have hentry : entries.lookup name = some (v.arrange b) := by rw [← Value.field?, h, hl]; rfl
  simp only [find?, hentry, hv b]

theorem yields_find?_none (hl : Value.field? fields name = none) :
    (find? name f).Yields fields none := by
  intro b entries h
  have hentry : entries.lookup name = none := by rw [← Value.field?, h, hl]; rfl
  simp only [find?, hentry]

theorem yields_required (hl : Value.field? fields name = some v) (hv : v.Yields f a) :
    (required name f).Yields fields a := by
  intro b entries h
  rw [required, yields_find? hl hv b entries h]

theorem yields_optional (hl : Value.field? fields name = some v) (hv : v.Yields f a) :
    (optional name f default).Yields fields a := by
  intro b entries h
  rw [optional, yields_find? hl hv b entries h]
  rfl

theorem yields_optional_none (hl : Value.field? fields name = none) :
    (optional name f default).Yields fields default := by
  intro b entries h
  rw [optional, yields_find?_none hl b entries h]
  rfl

/-- A field that is left out if it has its usual value. -/
theorem yields_optional_unless {c : Bool}
    (hl : Value.field? fields name = if c then none else some v) (hc : c = true → a = default)
    (hv : c = false → v.Yields f a) : (optional name f default).Yields fields a := by
  cases c with
  | false => exact yields_optional hl (hv rfl)
  | true =>
    rw [hc rfl]
    exact yields_optional_none hl

theorem yields_tags {t : Tags}
    (hl : Value.field? fields name = if t.isEmpty then none else some (.texts t.labels)) :
    (optional name Value.asTags ∅).Yields fields t := by
  refine yields_optional_unless hl (fun h => ?_) fun _ => Value.yields_tags t
  obtain ⟨labels, sorted⟩ := t
  obtain rfl := List.isEmpty_iff.1 h
  rfl

theorem yields_flag {x : Bool}
    (hl : Value.field? fields name = if x then some (.bool true) else none) :
    (optional name Value.asBool false).Yields fields x := by
  refine yields_optional_unless (c := !x) (v := .bool true) ?_ (fun h => ?_) fun h => ?_
  · rw [hl]
    cases x <;> rfl
  · simpa using h
  · obtain rfl : x = true := by simpa using h
    exact Value.yields_bool true

theorem yields_list {g : α → Value} {l : List α}
    (hl : Value.field? fields name = if l.isEmpty then none else some (.list (l.map g)))
    (h : ∀ a ∈ l, (g a).Yields f a) : (optional name (Value.asList f) []).Yields fields l :=
  yields_optional_unless hl List.isEmpty_iff.1 fun _ => Value.yields_list h

theorem yields_option {g : α → Value} {o : Option α}
    (hl : Value.field? fields name = o.map g) (h : ∀ a, o = some a → (g a).Yields f a)
    (hn : ∀ a, g a ≠ .null) : (optional name (Value.asOption f) none).Yields fields o := by
  cases o with
  | none => exact yields_optional_none hl
  | some a => exact yields_optional hl (Value.yields_some (h a rfl) (hn a))

theorem yields_nullable {o : Option α} (hl : Value.field? fields name = some v)
    (hv : v.Yields (Value.asOption f) o) : (nullable name f).Yields fields o := by
  intro b entries h
  rw [nullable, if_pos rfl, optional, yields_find? hl hv b entries h]
  rfl

theorem passing_eq_ok {names : List String} (h : ∀ e ∈ fields, e.2.isIllegible = false) :
    passing names ⟨fields, true, false⟩ = .ok () := by
  have hnone : fields.findIdx? (fun e => !names.contains e.1 && e.2.isIllegible) = none := by
    rw [List.findIdx?_eq_none_iff]
    intro e he
    rw [h e he, Bool.and_false]
  rw [passing, hnone]

theorem only_eq_ok {names : List String} (h : ∀ e ∈ fields, e.1 ∈ names) :
    only names ⟨fields, true, false⟩ = .ok () := by
  have hnone : fields.findIdx? (fun e => !names.contains e.1) = none := by
    rw [List.findIdx?_eq_none_iff]
    intro e he
    simpa using h e he
  rw [only, hnone]

end FieldReader

/-! ## Records -/

namespace Value

variable {α : Type} {decimal : String → Option Float} {a : α} {d : Dialect}
  {names names' : List String} {fields : List (String × Value)} {r : FieldReader α}

theorem readFields_record (h : r ⟨fields, true, false⟩ = .ok a) :
    (record fields).readFields d names r = .ok a := by
  simp [readFields, Fields.ofValue, h, bind, Except.bind]

/-- A record with further fields, which are passed over. -/
theorem yields_record_of_hasNames (hj : (record fields).IsJson decimal) (hr : r.Yields fields a)
    (hf : HasNames fields names') (hn : names'.Nodup) :
    (record fields).Yields (asRecord d names r) a := by
  intro b
  obtain ⟨entries, he, hl, hm⟩ := exists_arrange_record (hf.nodup hn) b
  have hlegible (e : String × Value) (hmem : e ∈ entries) : e.2.isIllegible = false := by
    obtain ⟨v, hv, e'⟩ := hm e hmem
    rw [e']
    exact (isJson_record.1 hj _ hv).arrange.isIllegible
  rw [he]
  exact readFields_record
    (FieldReader.seqRight_eq_ok (FieldReader.passing_eq_ok hlegible) (hr b entries hl))

theorem yields_record (hj : (record fields).IsJson decimal) (hr : r.Yields fields a)
    (hf : HasNames fields names) (hn : names.Nodup) :
    (record fields).Yields (asRecord d names r) a :=
  yields_record_of_hasNames hj hr hf hn

theorem yields_closedRecord (hr : r.Yields fields a) (hf : HasNames fields names)
    (hn : names.Nodup) : (record fields).Yields (asClosedRecord d names r) a := by
  intro b
  obtain ⟨entries, he, hl, hm⟩ := exists_arrange_record (hf.nodup hn) b
  have hknown (e : String × Value) (hmem : e ∈ entries) : e.1 ∈ names := by
    obtain ⟨v, hv, -⟩ := hm e hmem
    exact hf.subset (List.mem_map.2 ⟨_, hv, rfl⟩)
  rw [he]
  exact readFields_record
    (FieldReader.seqRight_eq_ok (FieldReader.only_eq_ok hknown) (hr b entries hl))

/-- A record that names its kind in its first field. -/
theorem yields_tagged {tag word : String} {kinds : String → Option (List String × FieldReader α)}
    (hj : (record ((tag, text word) :: fields)).IsJson decimal)
    (hk : kinds word = some (names, r)) (hr : r.Yields ((tag, text word) :: fields) a)
    (hf : HasNames fields names) (hn : (tag :: names).Nodup) :
    (record ((tag, text word) :: fields)).Yields (asTagged tag kinds) a := by
  intro b
  have hall : HasNames ((tag, text word) :: fields) (tag :: names) := List.Sublist.cons_cons tag hf
  have hrest : (record ((tag, text word) :: fields)).Yields (asRecord .tagged names r) a :=
    yields_record_of_hasNames hj hr hall hn
  specialize hrest b
  obtain ⟨entries, he, hl, -⟩ := exists_arrange_record (hall.nodup hn) b
  have htag : entries.lookup tag = some (text word) := by
    rw [← field?, hl, field?_cons, if_pos rfl, Option.map_some, arrange_text]
  rw [he] at hrest ⊢
  simp [asTagged, untag, htag, asText, hk, hrest, bind, Except.bind]

end Value

/-! ## Claims -/

/-- Each kind is read from its word. -/
theorem ClaimKind.ofWord?_render (k : ClaimKind) : ofWord? k.render = some k := by
  cases k <;> rfl

namespace Claim

open Value

variable {d : Dialect}

theorem isJson_toValue (decimal : String → Option Float) (c : Claim) :
    c.toValue.IsJson decimal := by
  simp [toValue]

/-- Reading the record of a claim gives the claim back. -/
theorem yields_toValue {c : Claim} (h : c.type.Writable) :
    c.toValue.Yields (Claim.ofValue d) c := by
  have hj := c.isJson_toValue fun _ => none
  obtain ⟨type, tags, kind⟩ := c
  exact yields_record hj
    (((FieldReader.yields_required (by simp) (yields_type h)).map.seq
      (FieldReader.yields_tags (by simp))).seq
      (FieldReader.yields_optional (by simp) (yields_word kind.ofWord?_render)))
    (((HasNames.refl ["type"]).append (HasNames.refl ["tags"]).unless).append (.refl ["kind"]))
    (by decide)

end Claim

end Wiring
