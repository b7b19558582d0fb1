/-!
# Maps from names, in the order of the names

A `NameMap α` is a finite map from strings. Its entries are kept in strictly ascending order of
the names (by code point), so a map has one representation and `toList` is the order in which it
is written out.

* `insert` replaces the value of a name that is already there.
* `get?_insert` says what a look-up sees after an insertion, `ext_get?` that look-ups determine
  the map.
-/

namespace Wiring

/-- A finite map from names to values, its entries in strictly ascending order of the names. -/
structure NameMap (α : Type u) where
  /-- The entries, each name once. -/
  entries : List (String × α)
  /-- The names ascend. -/
  sorted : entries.Pairwise (fun a b => a.1 < b.1)

namespace NameMap

variable {α : Type u} {β : Type v}

instance [DecidableEq α] : DecidableEq (NameMap α) := fun m n =>
  if h : m.entries = n.entries then
    isTrue (by cases m; cases n; cases h; rfl)
  else isFalse fun e => h (e ▸ rfl)

/-- The map without entries. -/
def empty : NameMap α := ⟨[], .nil⟩

instance : EmptyCollection (NameMap α) := ⟨empty⟩

instance : Inhabited (NameMap α) := ⟨empty⟩

/-- The entries in ascending order of the names. -/
def toList (m : NameMap α) : List (String × α) := m.entries

/-- The names in ascending order. -/
def keys (m : NameMap α) : List String := m.entries.map (·.1)

/-- The number of names. -/
def size (m : NameMap α) : Nat := m.entries.length

/-- Whether the map has no entry. -/
def isEmpty (m : NameMap α) : Bool := m.entries.isEmpty

/-- The value of a name. -/
def get? (m : NameMap α) (k : String) : Option α := m.entries.lookup k

/-- Whether the name has a value. -/
def contains (m : NameMap α) (k : String) : Bool := (m.get? k).isSome

/-- Puts an entry in its place in an ascending list, over an entry of the same name. -/
def insertEntry (k : String) (v : α) : List (String × α) → List (String × α)
  | [] => [(k, v)]
  | (k', v') :: rest =>
    if k < k' then (k, v) :: (k', v') :: rest
    else if k = k' then (k, v) :: rest
    else (k', v') :: insertEntry k v rest

theorem mem_insertEntry {k : String} {v : α} {e : String × α} {l : List (String × α)}
    (h : e ∈ insertEntry k v l) : e = (k, v) ∨ e ∈ l := by
  induction l with
  | nil => simpa [insertEntry] using h
  | cons hd tl ih =>
    simp only [insertEntry] at h
    split at h
    · simpa using h
    · split at h
      · rcases List.mem_cons.1 h with h | h
        · exact .inl h
        · exact .inr (List.mem_cons_of_mem _ h)
      · rcases List.mem_cons.1 h with h | h
        · exact .inr (h ▸ List.mem_cons_self)
        · exact (ih h).imp id (List.mem_cons_of_mem _)

theorem lt_of_not_lt_of_ne {a b : String} (h : ¬ a < b) (hne : a ≠ b) : b < a :=
  Std.lt_of_le_of_ne (String.not_lt.1 h) (Ne.symm hne)

theorem pairwise_insertEntry {k : String} {v : α} {l : List (String × α)}
    (h : l.Pairwise (fun a b => a.1 < b.1)) :
    (insertEntry k v l).Pairwise (fun a b => a.1 < b.1) := by
  induction l with
  | nil => simp [insertEntry]
  | cons hd tl ih =>
    obtain ⟨k', v'⟩ := hd
    obtain ⟨h₁, h₂⟩ := List.pairwise_cons.1 h
    simp only [insertEntry]
    split
    · next hlt =>
      refine List.pairwise_cons.2 ⟨fun e he => ?_, h⟩
      rcases List.mem_cons.1 he with rfl | he
      · exact hlt
      · exact String.lt_trans hlt (h₁ e he)
    · next hlt =>
      split
      · next heq => subst heq; exact List.pairwise_cons.2 ⟨h₁, h₂⟩
      · next hne =>
        refine List.pairwise_cons.2 ⟨fun e he => ?_, ih h₂⟩
        rcases mem_insertEntry he with rfl | he
        · exact lt_of_not_lt_of_ne hlt hne
        · exact h₁ e he

/-- The map with `v` as the value of `k`. -/
def insert (m : NameMap α) (k : String) (v : α) : NameMap α :=
  ⟨insertEntry k v m.entries, pairwise_insertEntry m.sorted⟩

/-- The map of a list of entries; of two entries of one name the later counts. -/
def ofList (l : List (String × α)) : NameMap α :=
  l.foldl (fun m e => m.insert e.1 e.2) empty

/-- The map with every value replaced. -/
def map (f : α → β) (m : NameMap α) : NameMap β where
  entries := m.entries.map fun e => (e.1, f e.2)
  sorted := List.pairwise_map.2 m.sorted

/-! ### What a look-up sees -/

theorem lookup_cons_eq (e : String × α) (j : String) (l : List (String × α)) :
    (e :: l).lookup j = if j = e.1 then some e.2 else l.lookup j := by
  obtain ⟨k, v⟩ := e
  rw [List.lookup_cons]
  by_cases h : j = k
  · simp [h]
  · simp [h, beq_eq_false_iff_ne.2 h]

theorem lookup_insertEntry (k j : String) (v : α) (l : List (String × α)) :
    (insertEntry k v l).lookup j = if j = k then some v else l.lookup j := by
  induction l with
  | nil => simp [insertEntry, lookup_cons_eq]
  | cons hd tl ih =>
    simp only [insertEntry]
    split
    · simp [lookup_cons_eq]
    · split
      · next heq => by_cases h : j = k <;> simp [lookup_cons_eq, h, ← heq]
      · next hne =>
        by_cases h : j = hd.1
        · simp [lookup_cons_eq, h, Ne.symm hne]
        · simp [lookup_cons_eq, h, ih]

@[simp] theorem get?_insert (m : NameMap α) (k j : String) (v : α) :
    (m.insert k v).get? j = if j = k then some v else m.get? j :=
  lookup_insertEntry k j v m.entries

@[simp] theorem get?_empty (j : String) : (empty : NameMap α).get? j = none := rfl

/-- A name before the first entry has no value. -/
theorem lookup_eq_none_of_lt {j : String} {l : List (String × α)}
    (h : ∀ e ∈ l, j < e.1) : l.lookup j = none := by
  induction l with
  | nil => rfl
  | cons hd tl ih =>
    have hne : j ≠ hd.1 := by
      have := h hd List.mem_cons_self
      rintro rfl
      exact String.lt_irrefl _ this
    rw [lookup_cons_eq, if_neg hne, ih fun e he => h e (List.mem_cons_of_mem _ he)]

theorem entries_eq_of_lookup {l₁ l₂ : List (String × α)}
    (h₁ : l₁.Pairwise (fun a b => a.1 < b.1)) (h₂ : l₂.Pairwise (fun a b => a.1 < b.1))
    (h : ∀ j, l₁.lookup j = l₂.lookup j) : l₁ = l₂ := by
  induction l₁ generalizing l₂ with
  | nil =>
    cases l₂ with
    | nil => rfl
    | cons b t => have := h b.1; simp [lookup_cons_eq] at this
  | cons a s ih =>
    cases l₂ with
    | nil => have := h a.1; simp [lookup_cons_eq] at this
    | cons b t =>
      obtain ⟨ha, hs⟩ := List.pairwise_cons.1 h₁
      obtain ⟨hb, ht⟩ := List.pairwise_cons.1 h₂
      -- The least names agree, since each list has no value below its own least name.
      have hab : a.1 = b.1 := by
        rcases Classical.em (a.1 = b.1) with hab | hab
        · exact hab
        · exfalso
          by_cases hlt : a.1 < b.1
          · have h' := h a.1
            rw [lookup_eq_none_of_lt (l := b :: t)] at h'
            · simp [lookup_cons_eq] at h'
            · intro e he
              rcases List.mem_cons.1 he with rfl | he
              · exact hlt
              · exact String.lt_trans hlt (hb e he)
          · have hlt := lt_of_not_lt_of_ne hlt hab
            have h' := h b.1
            rw [lookup_eq_none_of_lt (l := a :: s)] at h'
            · simp [lookup_cons_eq] at h'
            · intro e he
              rcases List.mem_cons.1 he with rfl | he
              · exact hlt
              · exact String.lt_trans hlt (ha e he)
      have hv : a.2 = b.2 := by have := h a.1; simpa [lookup_cons_eq, hab] using this
      have hst : s = t := by
        refine ih hs ht fun j => ?_
        by_cases hj : j = a.1
        · subst hj
          rw [lookup_eq_none_of_lt ha, lookup_eq_none_of_lt (hab ▸ hb)]
        · have h' := h j
          simpa [lookup_cons_eq, hj, hab ▸ hj] using h'
      rw [hst, Prod.ext hab hv]

/-- Two maps with the same look-ups are the same map. -/
theorem ext_get? {m n : NameMap α} (h : ∀ k, m.get? k = n.get? k) : m = n := by
  cases m with | mk l₁ h₁ =>
  cases n with | mk l₂ h₂ =>
  have := entries_eq_of_lookup h₁ h₂ h
  subst this
  rfl

end NameMap

end Wiring
