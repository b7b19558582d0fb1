import Wiring.Value.Reader
/-!
# Reading records

A `FieldReader` takes the fields of a record to data of the library. Field readers are combined
with `<*>`, and of all faults the combination reports the first one in the order in which the
fields are written. A field that is missing, or a value that belongs to no field, counts as a fault
after all others.

A record may also be written as the list of its values in the order of its fields, and a moment
counts as a record with one field of its own.

* `required`, `optional` and `nullable` read one field.
* `Value.asRecord` passes over fields that it does not know, `Value.asClosedRecord` refuses them.
* `Value.asTagged` reads a record of which one field says which others it has.
-/

namespace Wiring

/-- The fields of a record that is being read. -/
structure Fields where
  /-- The fields in the order in which they are written. -/
  entries : List (String × Value)
  /-- Whether the fields are written with their names, so that each may be left out. -/
  named : Bool
  /-- Whether there are values that belong to no field. -/
  surplus : Bool

namespace Fields

/-- How many fields are written before the field of this name. -/
def place (fs : Fields) (name : String) : Nat := fs.entries.findIdx (·.1 = name)

/-- The place after all fields. -/
def size (fs : Fields) : Nat := fs.entries.length

/-- The fields of a value with the names that a record has in this order. -/
def ofValue (d : Dialect) (names : List String) : Value → Except Fault Fields
  | .record fields => .ok ⟨fields, true, false⟩
  | .moment written => .ok ⟨[("$moment", .text written)], true, false⟩
  | .list items =>
    .ok ⟨names.zip items, false, !d.surplus && names.length < items.length⟩
  | _ => .error .shape

end Fields

/-- A function of the fields of a record that may find a fault at one of their places. -/
def FieldReader (α : Type) : Type := Fields → Except (Nat × Fault) α

namespace FieldReader

/-- Reads without looking at the fields. -/
protected def pure (a : α) : FieldReader α := fun _ => .ok a

/-- Reads with both readers. Of two faults, the one at the earlier place counts. -/
protected def seq (f : FieldReader (α → β)) (x : Unit → FieldReader α) : FieldReader β := fun fs =>
  match f fs, x () fs with
  | .ok g, .ok a => .ok (g a)
  | .ok _, .error e => .error e
  | .error e, .ok _ => .error e
  | .error e, .error e' => .error (if e'.1 < e.1 then e' else e)

instance : Applicative FieldReader where
  pure := FieldReader.pure
  seq := FieldReader.seq

theorem pure_apply (a : α) (fs : Fields) : (pure a : FieldReader α) fs = .ok a := rfl

/-- Two readers combined succeed exactly if both do. -/
theorem seq_eq_ok_iff {f : FieldReader (α → β)} {x : FieldReader α} {fs : Fields} {b : β} :
    (f <*> x) fs = .ok b ↔ ∃ g a, f fs = .ok g ∧ x fs = .ok a ∧ g a = b := by
  change FieldReader.seq f (fun _ => x) fs = .ok b ↔ _
  simp only [FieldReader.seq]
  cases f fs <;> cases x fs <;> simp

theorem map_eq_ok_iff {g : α → β} {x : FieldReader α} {fs : Fields} {b : β} :
    (g <$> x) fs = .ok b ↔ ∃ a, x fs = .ok a ∧ g a = b := by
  change FieldReader.seq (pure g) (fun _ => x) fs = .ok b ↔ _
  simp only [FieldReader.seq, pure_apply]
  cases x fs <;> simp

/-- Reads the field of this name, if it is written. -/
def find? (name : String) (f : Value → Except Fault α) : FieldReader (Option α) := fun fs =>
  match fs.entries.lookup name with
  | none => .ok none
  | some v =>
    match f v with
    | .ok a => .ok (some a)
    | .error e => .error (fs.place name, e)

/-- Reads the field of this name, which must be written. -/
def required (name : String) (f : Value → Except Fault α) : FieldReader α := fun fs =>
  match find? name f fs with
  | .ok (some a) => .ok a
  | .ok none => .error (fs.size, .shape)
  | .error e => .error e

/-- Reads the field of this name, or takes the value that it has when it is left out. -/
def optional (name : String) (f : Value → Except Fault α) (default : α) : FieldReader α := fun fs =>
  match find? name f fs with
  | .ok a => .ok (a.getD default)
  | .error e => .error e

/-- Reads the field of this name or null. It may only be left out where fields have names. -/
def nullable (name : String) (f : Value → Except Fault α) : FieldReader (Option α) := fun fs =>
  if fs.named then optional name (Value.asOption f) none fs
  else required name (Value.asOption f) fs

/-- Passes over fields of other names than these, in which no number may be illegible. -/
def passing (names : List String) : FieldReader Unit := fun fs =>
  match fs.entries.findIdx? fun e => !names.contains e.1 && e.2.isIllegible with
  | some i => .error (i, .shape)
  | none => .ok ()

/-- Refuses fields of other names than these. -/
def only (names : List String) : FieldReader Unit := fun fs =>
  match fs.entries.findIdx? fun e => !names.contains e.1 with
  | some i => .error (i, .shape)
  | none => .ok ()

end FieldReader

namespace Value

/-- Reads all fields, which have these names in this order where the record is written as a
list. -/
def readFields (d : Dialect) (names : List String) (r : FieldReader α) (v : Value) :
    Except Fault α := do
  let fs ← Fields.ofValue d names v
  match r fs with
  | .ok a => if fs.surplus then .error .shape else .ok a
  | .error e => .error e.2

/-- Reads a record with fields of these names. -/
def asRecord (d : Dialect) (names : List String) (r : FieldReader α) (v : Value) :
    Except Fault α :=
  v.readFields d names (.passing names *> r)

/-- Reads a record with fields of these names and no others. -/
def asClosedRecord (d : Dialect) (names : List String) (r : FieldReader α) (v : Value) :
    Except Fault α :=
  v.readFields d names (.only names *> r)

/-- The value of the field `tag`, which a list has in front, with the value that holds the other
fields. -/
def untag (tag : String) : Value → Except Fault (Value × Value)
  | .record fields =>
    match fields.lookup tag with
    | some kind => .ok (kind, .record fields)
    | none => .error .shape
  | .list (kind :: items) => .ok (kind, .list items)
  | _ => .error .shape

/-- Reads a record in which the field `tag` names one of several kinds, and `kinds` says for each
kind which other fields it has and how they are read. -/
def asTagged (tag : String) (kinds : String → Option (List String × FieldReader α)) (v : Value) :
    Except Fault α := do
  let (kind, rest) ← v.untag tag
  match kinds (← kind.asText) with
  | some (names, r) => rest.asRecord .tagged names r
  | none => .error .shape

end Value

end Wiring
