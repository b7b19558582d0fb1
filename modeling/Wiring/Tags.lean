/-!
# Tag sets

Tags are plain labels that tell components of one type apart. A `Tags` is a set of labels, kept
in strictly ascending order, so that equal sets are equal values and are written alike.

`Tags.Accepts` is the rule by which a claim with some tags takes a component with others.
-/

namespace Wiring

/-- A set of labels, in strictly ascending order. -/
structure Tags where
  /-- The labels, each once. -/
  labels : List String
  /-- The labels ascend. -/
  sorted : labels.Pairwise (· < ·)
deriving DecidableEq

namespace Tags

/-- The set without labels. -/
def empty : Tags := ⟨[], .nil⟩

instance : EmptyCollection Tags := ⟨empty⟩

instance : Inhabited Tags := ⟨empty⟩

/-- Whether there is no label. -/
def isEmpty (t : Tags) : Bool := t.labels.isEmpty

/-- The number of labels. -/
def size (t : Tags) : Nat := t.labels.length

/-- Whether the label is in the set. -/
def contains (t : Tags) (label : String) : Bool := t.labels.contains label

/-- Puts a label in its place in an ascending list, unless it is there. -/
def insertLabel (x : String) : List String → List String
  | [] => [x]
  | y :: rest =>
    if x < y then x :: y :: rest else if x = y then y :: rest else y :: insertLabel x rest

theorem mem_insertLabel {x z : String} {l : List String} :
    z ∈ insertLabel x l ↔ z = x ∨ z ∈ l := by
  induction l with
  | nil => simp [insertLabel]
  | cons y rest ih =>
    simp only [insertLabel]
    split
    · simp
    · split
      · next h => subst h; simp
      · simp only [List.mem_cons, ih]
        constructor <;> rintro (h | h | h) <;> simp [h]

theorem pairwise_insertLabel {x : String} {l : List String} (h : l.Pairwise (· < ·)) :
    (insertLabel x l).Pairwise (· < ·) := by
  induction l with
  | nil => simp [insertLabel]
  | cons y rest ih =>
    obtain ⟨h₁, h₂⟩ := List.pairwise_cons.1 h
    simp only [insertLabel]
    split
    · next hlt =>
      refine List.pairwise_cons.2 ⟨fun z hz => ?_, h⟩
      rcases List.mem_cons.1 hz with rfl | hz
      · exact hlt
      · exact String.lt_trans hlt (h₁ z hz)
    · next hlt =>
      split
      · exact h
      · next hne =>
        refine List.pairwise_cons.2 ⟨fun z hz => ?_, ih h₂⟩
        rcases mem_insertLabel.1 hz with rfl | hz
        · exact Std.lt_of_le_of_ne (String.not_lt.1 hlt) (Ne.symm hne)
        · exact h₁ z hz

/-- The set with one more label. -/
def insert (t : Tags) (label : String) : Tags :=
  ⟨insertLabel label t.labels, pairwise_insertLabel t.sorted⟩

/-- The set of the labels of a list. -/
def ofList (l : List String) : Tags := l.foldl insert empty

/-- Whether every label of `s` is in `t`. -/
def Includes (t s : Tags) : Prop := ∀ label ∈ s.labels, label ∈ t.labels

instance (t s : Tags) : Decidable (t.Includes s) :=
  inferInstanceAs (Decidable (∀ label ∈ s.labels, label ∈ t.labels))

/-- The label with which a claim takes components whatever their tags. -/
def wildcard : String := "*"

/-- A claim with tags `t` takes a component with tags `s`: an empty claim takes untagged components
only, a wildcard takes all, and any other claim those that carry all of its labels. -/
def Accepts (t s : Tags) : Prop :=
  if t.labels = [] then s.labels = [] else wildcard ∈ t.labels ∨ s.Includes t

instance (t s : Tags) : Decidable (t.Accepts s) :=
  inferInstanceAs (Decidable (if t.labels = [] then s.labels = [] else
    wildcard ∈ t.labels ∨ s.Includes t))

/-- The labels in brackets, as messages show them. -/
def render (t : Tags) : String := "[" ++ ", ".intercalate t.labels ++ "]"

/-! ### Membership -/

@[simp] theorem labels_empty : (empty : Tags).labels = [] := rfl

theorem mem_labels_insert {t : Tags} {x z : String} :
    z ∈ (t.insert x).labels ↔ z = x ∨ z ∈ t.labels := mem_insertLabel

theorem mem_labels_foldl_insert {l : List String} {t : Tags} {z : String} :
    z ∈ (l.foldl insert t).labels ↔ z ∈ t.labels ∨ z ∈ l := by
  induction l generalizing t with
  | nil => simp
  | cons x rest ih =>
    rw [List.foldl_cons, ih, mem_labels_insert, List.mem_cons]
    constructor
    · rintro ((h | h) | h) <;> simp [h]
    · rintro (h | h | h) <;> simp [h]

theorem mem_labels_ofList {l : List String} {z : String} : z ∈ (ofList l).labels ↔ z ∈ l := by
  simp [ofList, mem_labels_foldl_insert]

end Tags

end Wiring
