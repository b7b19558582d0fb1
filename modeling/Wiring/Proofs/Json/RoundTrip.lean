import Mathlib.Data.List.Basic
import Wiring.Proofs.Json.Reader
/-!
# Reading JSON gives back what was written

JSON has a value (`Value.IsJson`) if its whole numbers fit 64 bits and its decimals are read as
they are written. Reading one of its texts gives such a value back: `Json.read_compact` for the text
without blanks, `Json.read_pretty` for the one on several lines.

* `Json.run` reads the rest of a text, so a text that stands in the middle of another one can be
  looked at: `Json.Writes` says that reading it gives a value wherever a value may start.
* `Json.run_parts` goes through the items of a list and the fields of a record.
* `Json.newline_not_mem_compact` and `Json.lines_inj`: the texts without blanks are lines, and data
  written on lines one after the other are told apart.
-/

namespace Wiring

variable {decimal : String → Option Float} {c : Char} {cs ds rest ws gap : List Char} {s : String}
  {n : Int} {v : Value}

namespace Json

variable {x : Reading}

/-! ## Tokens -/

theorem run_of_scan {t : Token} (h : scan .between cs = (scan .between rest).map (t :: ·)) :
    run decimal cs x = (x.next decimal t).bind (run decimal rest) := by
  rw [run, h]
  cases hs : scan .between rest with
  | none => cases x.next decimal t <;> simp [run, hs]
  | some ts =>
    change (do (← (t :: ts).foldlM (Reading.next decimal) x).finish) = _
    rw [List.foldlM_cons]
    cases x.next decimal t with
    | none => rfl
    | some y => simp [run, hs]

theorem scan_of_step {m m' : Mode} {ts : List Token} (h : m.step c = some (ts, m')) :
    scan m (c :: cs) = (scan m' cs).map (ts ++ ·) := by
  rw [scan, h]
  rfl

/-- A character that ends no token. -/
theorem scan_of_silent {m m' : Mode} (h : m.step c = some ([], m')) :
    scan m (c :: cs) = scan m' cs := by
  rw [scan_of_step h]
  exact Option.map_id'

theorem step_of_isSpace (h : isSpace c = true) : Mode.between.step c = some ([], .between) := by
  rw [Mode.step, if_pos h]

theorem isSpace_of_isSign (h : isSign c = true) : isSpace c = false := by
  simp only [isSign, Bool.or_eq_true, beq_iff_eq] at h
  rcases h with ((((rfl | rfl) | rfl) | rfl) | rfl) | rfl <;> rfl

theorem step_of_isSign (h : isSign c = true) :
    Mode.between.step c = some ([.sign c], .between) := by
  simp [Mode.step, isSpace_of_isSign h, h]

theorem run_space (h : isSpace c = true) : run decimal (c :: cs) x = run decimal cs x := by
  rw [run, scan_of_silent (step_of_isSpace h), run]

/-- The characters are white space. -/
def Spaces (ws : List Char) : Prop := ∀ c ∈ ws, isSpace c = true

theorem spaces_nil : Spaces [] := List.forall_mem_nil _

theorem run_spaces (h : Spaces ws) : run decimal (ws ++ cs) x = run decimal cs x := by
  induction ws with
  | nil => rfl
  | cons c ws ih =>
    obtain ⟨hc, hws⟩ := List.forall_mem_cons.1 h
    rw [List.cons_append, run_space hc, ih hws]

theorem run_sign (h : isSign c = true) :
    run decimal (c :: cs) x = (x.next decimal (.sign c)).bind (run decimal cs) :=
  run_of_scan (scan_of_step (step_of_isSign h))

/-- What may follow a word, so that it ends there. -/
def WordEnds (rest : List Char) : Prop := rest.head?.all fun c => isSpace c || isSign c

@[simp] theorem wordEnds_nil : WordEnds [] := rfl

@[simp] theorem wordEnds_cons : WordEnds (c :: cs) ↔ isSpace c = true ∨ isSign c = true := by
  simp [WordEnds]

/-- Whether the character belongs to words. -/
def isPlain (c : Char) : Bool := !isSpace c && !isSign c && c != '"'

theorem scan_word {acc : List Char} (hcs : ∀ c ∈ cs, isPlain c = true) (hr : WordEnds rest) :
    scan (.word acc) (cs ++ rest) =
      (scan .between rest).map (.word (String.ofList (acc ++ cs)) :: ·) := by
  induction cs generalizing acc with
  | nil =>
    rw [List.nil_append, List.append_nil]
    cases rest with
    | nil => rfl
    | cons c cs =>
      rcases wordEnds_cons.1 hr with hc | hc
      · have hstep : (Mode.word acc).step c = some ([.word (String.ofList acc)], .between) := by
          simp [Mode.step, hc]
        rw [scan_of_step hstep, scan_of_silent (step_of_isSpace hc)]
        rfl
      · have hstep : (Mode.word acc).step c =
            some ([.word (String.ofList acc), .sign c], .between) := by
          simp [Mode.step, isSpace_of_isSign hc, hc]
        rw [scan_of_step hstep, scan_of_step (step_of_isSign hc), Option.map_map]
        rfl
  | cons c cs ih =>
    obtain ⟨hc, hcs⟩ := List.forall_mem_cons.1 hcs
    simp only [isPlain, Bool.and_eq_true, Bool.not_eq_true', bne_iff_ne] at hc
    have hstep : (Mode.word acc).step c = some ([], .word (acc ++ [c])) := by simp [Mode.step, hc]
    rw [List.cons_append, scan_of_silent hstep, ih hcs, List.append_assoc, List.singleton_append]

theorem run_word {w : String} (hne : w.toList ≠ []) (hw : ∀ c ∈ w.toList, isPlain c = true)
    (hr : WordEnds rest) :
    run decimal (w.toList ++ rest) x = (x.next decimal (.word w)).bind (run decimal rest) := by
  apply run_of_scan
  obtain ⟨c, cs, hcs⟩ := List.exists_cons_of_ne_nil hne
  rw [hcs] at hw
  obtain ⟨hc, hw⟩ := List.forall_mem_cons.1 hw
  simp only [isPlain, Bool.and_eq_true, Bool.not_eq_true', bne_iff_ne] at hc
  have hstep : Mode.between.step c = some ([], .word [c]) := by simp [Mode.step, hc]
  rw [hcs, List.cons_append, scan_of_silent hstep, scan_word hw hr, List.singleton_append, ← hcs,
    String.ofList_toList]

/-! ## Strings -/

theorem hexValue?_hexDigit : ∀ n < 16, hexValue? (hexDigit n) = some n := by decide

theorem charOf?_toNat : charOf? c.toNat = some c := by
  have h : c.toNat.isValidChar := c.valid
  rw [charOf?, if_pos h, Char.ofNat_toNat]

/-- A short escape is read as what it stands for. -/
theorem scan_escape {acc : List Char} {e : Char} (hu : e ≠ 'u') (h : unescape? e = some c) :
    scan (.text acc) ('\\' :: e :: rest) = scan (.text (acc ++ [c])) rest := by
  have hstart : (Mode.text acc).step '\\' = some ([], .escape acc) := rfl
  have hend : (Mode.escape acc).step e = some ([], .text (acc ++ [c])) := by
    rw [Mode.step, if_neg hu, h]
    rfl
  rw [scan_of_silent hstart, scan_of_silent hend]

/-- A character below U+0020 is read back from its code. -/
theorem scan_code {acc : List Char} (hc : c.toNat < 0x20) :
    scan (.text acc) ('\\' :: 'u' :: '0' :: '0' :: hexDigit (c.toNat / 16) ::
      hexDigit (c.toNat % 16) :: rest) = scan (.text (acc ++ [c])) rest := by
  have hhigh := hexValue?_hexDigit (c.toNat / 16) (by omega)
  have hlow := hexValue?_hexDigit (c.toNat % 16) (by omega)
  have hsum : 16 * (c.toNat / 16) + c.toNat % 16 = c.toNat := Nat.div_add_mod _ _
  have hstart : (Mode.text acc).step '\\' = some ([], .escape acc) := rfl
  have hcode : (Mode.escape acc).step 'u' = some ([], .code acc 4 0) := rfl
  have hfirst : (Mode.code acc 4 0).step '0' = some ([], .code acc 3 0) := rfl
  have hsecond : (Mode.code acc 3 0).step '0' = some ([], .code acc 2 0) := rfl
  have hthird : (Mode.code acc 2 0).step (hexDigit (c.toNat / 16)) =
      some ([], .code acc 1 (c.toNat / 16)) := by simp [Mode.step, hhigh]
  have hfourth : (Mode.code acc 1 (c.toNat / 16)).step (hexDigit (c.toNat % 16)) =
      some ([], .text (acc ++ [c])) := by simp [Mode.step, hlow, hsum, charOf?_toNat]
  rw [scan_of_silent hstart, scan_of_silent hcode, scan_of_silent hfirst, scan_of_silent hsecond,
    scan_of_silent hthird, scan_of_silent hfourth]

/-- What stands for a character in a string is read as this character. -/
theorem scan_escapeChar {acc : List Char} :
    scan (.text acc) (escapeChar c ++ rest) = scan (.text (acc ++ [c])) rest := by
  unfold escapeChar
  split_ifs with hq hb h8 ht hn hf hr hc
  case neg =>
    have hstep : (Mode.text acc).step c = some ([], .text (acc ++ [c])) := by
      rw [Mode.step, if_neg hq, if_neg hb, if_neg hc]
    exact scan_of_silent hstep
  all_goals first
    | exact scan_code hc
    | subst c; exact scan_escape (by decide) (by decide)

theorem scan_text {acc : List Char} :
    scan (.text acc) (cs.flatMap escapeChar ++ '"' :: rest) =
      (scan .between rest).map (.text (String.ofList (acc ++ cs)) :: ·) := by
  induction cs generalizing acc with
  | nil =>
    rw [List.append_nil]
    have hstep : (Mode.text acc).step '"' = some ([.text (String.ofList acc)], .between) := rfl
    exact scan_of_step hstep
  | cons c cs ih =>
    rw [List.flatMap_cons, List.append_assoc, scan_escapeChar, ih, List.append_assoc,
      List.singleton_append]

/-- A string in quotation marks is read as one token. -/
theorem run_quote :
    run decimal ((quote s).toList ++ rest) x =
      (x.next decimal (.text s)).bind (run decimal rest) := by
  apply run_of_scan
  have h : scan .between ((quote s).toList ++ rest) =
      scan (.text []) (s.toList.flatMap escapeChar ++ '"' :: rest) := by
    rw [quote, String.toList_ofList, List.cons_append, List.cons_append, List.append_assoc]
    exact scan_of_silent (by simp [Mode.step, isSpace, isSign])
  rw [h, scan_text, List.nil_append, String.ofList_toList]

/-! ## Words -/

theorem isPlain_of_all {w : String} (hw : w.toList.all isPlain = true) (h : c ∈ w.toList) :
    isPlain c = true :=
  List.all_eq_true.1 hw c h

theorem isPlain_of_isDigit (h : c.isDigit = true) : isPlain c = true := by
  have hc : 48 ≤ c.toNat ∧ c.toNat ≤ 57 := by
    simpa [Char.isDigit, UInt32.le_iff_toNat_le] using h
  have hne {d : Char} (hd : ¬(48 ≤ d.toNat ∧ d.toNat ≤ 57)) : (c == d) = false :=
    beq_eq_false_iff_ne.2 fun e => hd (e ▸ hc)
  simp [isPlain, isSpace, isSign, hne, bne]

theorem isDigit_of_mem_repr {n : Nat} (h : c ∈ n.repr.toList) : c.isDigit = true := by
  rw [Nat.toList_repr] at h
  exact Nat.isDigit_of_mem_toDigits (by decide) (by decide) h

/-- A whole number is written with digits after a sign, if it has one. -/
theorem exists_toString (n : Int) : ∃ (m : Nat) (sign : List Char),
    (toString n).toList = sign ++ m.repr.toList ∧
      (sign = [] ∧ n = m ∨ sign = ['-'] ∧ n = -m) := by
  cases n with
  | ofNat m => exact ⟨m, [], rfl, .inl ⟨rfl, rfl⟩⟩
  | negSucc m => exact ⟨m.succ, ['-'], String.toList_append .., .inr ⟨rfl, rfl⟩⟩

theorem ofDigitChars_repr (n : Nat) : Nat.ofDigitChars 10 n.repr.toList 0 = n := by
  rw [Nat.toList_repr, Nat.ofDigitChars_toDigits (by decide) (by decide)]

theorem wholeOf_toString (n : Int) : wholeOf (toString n).toList = n := by
  obtain ⟨m, sign, h, ⟨rfl, rfl⟩ | ⟨rfl, rfl⟩⟩ := exists_toString n
  · rw [h, List.nil_append]
    unfold wholeOf
    split
    · next cs hm =>
      have hd := isDigit_of_mem_repr (c := '-') (n := m) (by rw [hm]; exact List.mem_cons_self)
      exact absurd hd (by decide)
    · rw [ofDigitChars_repr]
  · rw [h, List.singleton_append, wholeOf, ofDigitChars_repr]

theorem mem_toString (h : c ∈ (toString n).toList) : c = '-' ∨ c.isDigit = true := by
  obtain ⟨m, sign, e, hsign⟩ := exists_toString n
  rw [e, List.mem_append] at h
  rcases h with h | h
  · rcases hsign with ⟨rfl, -⟩ | ⟨rfl, -⟩
    · cases h
    · exact .inl (List.mem_singleton.1 h)
  · exact .inr (isDigit_of_mem_repr h)

theorem isPlain_of_mem_toString (h : c ∈ (toString n).toList) : isPlain c = true := by
  rcases mem_toString h with rfl | hd
  · rfl
  · exact isPlain_of_isDigit hd

theorem wordValue?_toString (h : Fits n) : wordValue? decimal (toString n) = some (.int n) := by
  have hne {w : String} {c : Char} (hc : c ∈ w.toList) (hd : ¬(c = '-' ∨ c.isDigit = true)) :
      toString n ≠ w := fun e => hd (mem_toString (e ▸ hc))
  have hwhole : whole? (toString n) = some n := by
    rw [whole?, wholeOf_toString]
    exact if_pos ⟨rfl, h⟩
  rw [wordValue?, if_neg (hne (c := 'n') (by decide) (by decide)),
    if_neg (hne (c := 't') (by decide) (by decide)),
    if_neg (hne (c := 'f') (by decide) (by decide)), hwhole]

theorem toList_toString_ne_nil : (toString n).toList ≠ [] := by
  obtain ⟨m, sign, h, -⟩ := exists_toString n
  rw [h, Nat.toList_repr]
  exact List.append_ne_nil_of_right_ne_nil _ Nat.toDigits_ne_nil

theorem mem_render {d : Decimal} (h : c ∈ d.render.toList) : c = '.' ∨ c.isDigit = true := by
  have hzero {k : Nat} (h : c ∈ List.replicate k '0') : c.isDigit = true := by
    rw [List.eq_of_mem_replicate h]
    rfl
  simp only [Decimal.render] at h
  split at h
  · rw [String.toList_ofList, List.mem_append] at h
    exact .inr (h.elim isDigit_of_mem_repr hzero)
  · rw [String.toList_ofList, List.mem_append, List.mem_cons] at h
    rcases h with h | rfl | h
    · exact .inr ((List.mem_append.1 (List.mem_of_mem_take h)).elim hzero isDigit_of_mem_repr)
    · exact .inl rfl
    · exact .inr ((List.mem_append.1 (List.mem_of_mem_drop h)).elim hzero isDigit_of_mem_repr)

theorem isPlain_of_mem_positional {x : Float} (h : c ∈ (Decimal.positional x).toList) :
    isPlain c = true := by
  have hrender {d : Decimal} (h : c ∈ d.render.toList) : isPlain c = true := by
    rcases mem_render h with rfl | h
    · rfl
    · exact isPlain_of_isDigit h
  simp only [Decimal.positional] at h
  split at h
  · exact isPlain_of_all rfl h
  · rw [String.toList_append, List.mem_append] at h
    rcases h with h | h
    · split at h <;> exact isPlain_of_all rfl h
    · split at h
      · exact isPlain_of_all rfl h
      · split at h
        · exact isPlain_of_all rfl h
        · split at h <;> exact hrender h

/-- The number is finite, and reading its text gives it back. -/
def Exact (decimal : String → Option Float) (x : Float) : Prop :=
  (x.isNaN || x.isInf) = false ∧ decimal (number x) = some x

theorem isPlain_of_mem_number {x : Float} (h : c ∈ (number x).toList) : isPlain c = true := by
  simp only [number] at h
  split at h
  · exact isPlain_of_all rfl h
  · split at h
    · exact isPlain_of_mem_positional h
    · rw [String.toList_append, List.mem_append] at h
      exact h.elim isPlain_of_mem_positional (isPlain_of_all rfl)

/-- A finite number is written with a point. -/
theorem point_mem_number {x : Float} (h : (x.isNaN || x.isInf) = false) :
    '.' ∈ (number x).toList := by
  rw [number, h, if_neg Bool.false_ne_true]
  dsimp only
  split
  · next hp => simpa [String.contains_char_eq] using hp
  · exact String.toList_append ▸ List.mem_append_right _ (by decide)

theorem wordValue?_number {x : Float} (h : Exact decimal x) :
    wordValue? decimal (number x) = some (.float x) := by
  have hpoint := point_mem_number h.1
  have hne {w : String} (hw : '.' ∉ w.toList) : number x ≠ w := fun e => hw (e ▸ hpoint)
  have hwhole : whole? (number x) = none :=
    if_neg fun ⟨e, _⟩ => absurd (mem_toString (e ▸ hpoint)) (by decide)
  rw [wordValue?, if_neg (hne (by decide)), if_neg (hne (by decide)), if_neg (hne (by decide)),
    hwhole]
  simp [h.2]

end Json

/-! ## Values -/

/-- JSON has the value: whole numbers fit 64 bits, and the text of each other number is read
exactly. -/
inductive Value.IsJson (decimal : String → Option Float) : Value → Prop
  | null : IsJson decimal .null
  | bool (b : Bool) : IsJson decimal (.bool b)
  | int {n : Int} (h : Json.Fits n) : IsJson decimal (.int n)
  | float {x : Float} (h : Json.Exact decimal x) : IsJson decimal (.float x)
  | text (s : String) : IsJson decimal (.text s)
  | list {items : List Value} (h : ∀ v ∈ items, IsJson decimal v) : IsJson decimal (.list items)
  | record {fields : List (String × Value)} (h : ∀ e ∈ fields, IsJson decimal e.2) :
      IsJson decimal (.record fields)

namespace Json

/-- Where a value may start, reading the text gives this value. -/
def Writes (decimal : String → Option Float) (cs : List Char) (v : Value) : Prop :=
  ∀ stack rest, WordEnds rest →
    run decimal (cs ++ rest) (.value stack) = run decimal rest (.closed v stack)

theorem writes_word {w : String} (h : wordValue? decimal w = some v) (hne : w.toList ≠ [])
    (hw : ∀ c ∈ w.toList, isPlain c = true) : Writes decimal w.toList v := by
  intro stack rest hr
  rw [run_word hne hw hr, Reading.next, Reading.begin, h]
  rfl

theorem writes_quote : Writes decimal (quote s).toList (.text s) := by
  intro stack rest _
  rw [run_quote]
  rfl

theorem writes_null : Writes decimal (leaf .null).toList .null :=
  writes_word rfl (by decide) fun _ => isPlain_of_all rfl

theorem writes_bool {b : Bool} : Writes decimal (leaf (.bool b)).toList (.bool b) := by
  cases b
  · exact writes_word rfl (by decide) fun _ => isPlain_of_all rfl
  · exact writes_word rfl (by decide) fun _ => isPlain_of_all rfl

theorem writes_int (h : Fits n) : Writes decimal (leaf (.int n)).toList (.int n) :=
  writes_word (wordValue?_toString h) toList_toString_ne_nil fun _ => isPlain_of_mem_toString

theorem writes_float {x : Float} (h : Exact decimal x) :
    Writes decimal (leaf (.float x)).toList (.float x) :=
  writes_word (wordValue?_number h) (List.ne_nil_of_mem (point_mem_number h.1))
    fun _ => isPlain_of_mem_number

theorem Writes.spaces (h : Writes decimal cs v) (hw : Spaces ws) :
    Writes decimal (ws ++ cs) v := by
  intro stack rest hr
  rw [List.append_assoc, run_spaces hw, h stack rest hr]

/-! ## Lists and records -/

theorem wordEnds_spaces (hw : Spaces ws) (hr : WordEnds rest) :
    WordEnds (ws ++ rest) := by
  cases ws with
  | nil => exact hr
  | cons c ws => exact wordEnds_cons.2 (.inl (hw c List.mem_cons_self))

/-- Parts with commas between them, up to the bracket that closes them. Before a part the reading is
`between acc`, after it `after acc a`, where `acc` are the parts read so far. -/
theorem run_parts {α : Type} (between done : List α → Reading) (after : List α → α → Reading)
    {text : α → List Char} {close : Char} {parts acc : List α} (hne : parts ≠ [])
    (hpart : ∀ a ∈ parts, ∀ acc rest, WordEnds rest →
      run decimal (text a ++ rest) (between acc) = run decimal rest (after acc a))
    (hcomma : ∀ acc a, (after acc a).next decimal (.sign ',') = some (between (acc ++ [a])))
    (hclose : ∀ acc a, (after acc a).next decimal (.sign close) = some (done (acc ++ [a])))
    (hs : isSign close = true) (hw : Spaces ws) :
    run decimal ([','].intercalate (parts.map text) ++ (ws ++ close :: rest)) (between acc) =
      run decimal rest (done (acc ++ parts)) := by
  induction parts generalizing acc with
  | nil => exact absurd rfl hne
  | cons a parts ih =>
    obtain ⟨ha, hparts⟩ := List.forall_mem_cons.1 hpart
    cases parts with
    | nil =>
      have hend : WordEnds (ws ++ close :: rest) :=
        wordEnds_spaces hw (wordEnds_cons.2 (.inr hs))
      rw [List.map_singleton, List.intercalate_singleton, ha acc _ hend, run_spaces hw,
        run_sign hs, hclose]
      rfl
    | cons b parts =>
      have hend : WordEnds (',' :: ([','].intercalate ((b :: parts).map text) ++
          (ws ++ close :: rest))) := wordEnds_cons.2 (.inr rfl)
      rw [List.map_cons, List.map_cons, List.intercalate_cons_cons, List.append_assoc,
        List.append_assoc, List.singleton_append, ← List.map_cons, ha acc _ hend, run_sign rfl,
        hcomma, Option.bind_some, ih (List.cons_ne_nil b parts) hparts, List.append_assoc,
        List.singleton_append]

theorem writes_list {text : Value → List Char} {items : List Value}
    (h : ∀ v ∈ items, Writes decimal (text v) v) (hw : Spaces ws) :
    Writes decimal ('[' :: ([','].intercalate (items.map text) ++ ws ++ [']'])) (.list items) := by
  intro stack rest _
  rw [List.cons_append, run_sign rfl, List.append_assoc, List.append_assoc, List.singleton_append]
  change run decimal _ (.value (.list [] :: stack)) = _
  by_cases hne : items = []
  · rw [hne, List.map_nil, List.intercalate_nil, List.nil_append, run_spaces hw, run_sign rfl]
    rfl
  · have hclose (acc : List Value) (v : Value) :
        (Reading.closed v (.list acc :: stack)).next decimal (.sign ']') =
          some (.closed (.list (acc ++ [v])) stack) := rfl
    exact run_parts (fun acc => .value (.list acc :: stack)) (fun acc => .closed (.list acc) stack)
      (fun acc v => .closed v (.list acc :: stack)) hne
      (fun v hv acc => h v hv (.list acc :: stack)) (fun _ _ => rfl) hclose rfl hw

/-- Where a record may go on with a name, reading the text gives the field. -/
def WritesField (decimal : String → Option Float) (cs : List Char) (e : String × Value) : Prop :=
  ∀ acc stack rest, WordEnds rest →
    run decimal (cs ++ rest) (.name acc stack) =
      run decimal rest (.closed e.2 (.record acc e.1 :: stack))

theorem writesField {e : String × Value} (h : Writes decimal cs e.2) (hw : Spaces ws)
    (hg : Spaces gap) :
    WritesField decimal (ws ++ (quote e.1).toList ++ ':' :: gap ++ cs) e := by
  intro acc stack rest hr
  rw [List.append_assoc, List.append_assoc, List.append_assoc, run_spaces hw, run_quote]
  change run decimal _ (.colon acc e.1 stack) = _
  rw [List.cons_append, run_sign rfl]
  change run decimal _ (.value (.record acc e.1 :: stack)) = _
  rw [run_spaces hg, h _ rest hr]

theorem writes_record {text : String × Value → List Char} {fields : List (String × Value)}
    (h : ∀ e ∈ fields, WritesField decimal (text e) e) (hw : Spaces ws) :
    Writes decimal ('\x7b' :: ([','].intercalate (fields.map text) ++ ws ++ ['\x7d']))
      (.record fields) := by
  intro stack rest _
  rw [List.cons_append, run_sign rfl, List.append_assoc, List.append_assoc, List.singleton_append]
  change run decimal _ (.name [] stack) = _
  by_cases hne : fields = []
  · rw [hne, List.map_nil, List.intercalate_nil, List.nil_append, run_spaces hw, run_sign rfl]
    rfl
  · have hclose (acc : List (String × Value)) (e : String × Value) :
        (Reading.closed e.2 (.record acc e.1 :: stack)).next decimal (.sign '\x7d') =
          some (.closed (.record (acc ++ [e])) stack) := rfl
    exact run_parts (fun acc => .name acc stack) (fun acc => .closed (.record acc) stack)
      (fun acc e => .closed e.2 (.record acc e.1 :: stack)) hne
      (fun e he acc => h e he acc stack) (fun _ _ => rfl) hclose rfl hw

/-! ## Whole texts -/

theorem toList_compactItems {items : List Value} :
    (compactItems items).toList = [','].intercalate (items.map fun v => (compact v).toList) := by
  induction items with
  | nil => rfl
  | cons v items ih =>
    cases items with
    | nil => simp [compactItems]
    | cons u items =>
      rw [compactItems, String.toList_append, String.toList_append, ih]
      · simp
      · rintro ⟨⟩

theorem toList_compactFields {fields : List (String × Value)} :
    (compactFields fields).toList = [','].intercalate (fields.map fun e =>
      (quote e.1).toList ++ ':' :: (compact e.2).toList) := by
  induction fields with
  | nil => rfl
  | cons e fields ih =>
    obtain ⟨k, v⟩ := e
    cases fields with
    | nil => simp [compactFields]
    | cons d fields =>
      rw [compactFields, String.toList_append, ih]
      · simp
      · rintro ⟨⟩

theorem toList_prettyItems {level : Nat} {items : List Value} :
    (prettyItems level items).toList = [','].intercalate (items.map fun v =>
      (newline level).toList ++ (prettyAt level v).toList) := by
  induction items with
  | nil => rfl
  | cons v items ih =>
    cases items with
    | nil => simp [prettyItems]
    | cons u items =>
      rw [prettyItems, String.toList_append, ih]
      · simp
      · rintro ⟨⟩

theorem toList_prettyFields {level : Nat} {fields : List (String × Value)} :
    (prettyFields level fields).toList = [','].intercalate (fields.map fun e =>
      (newline level).toList ++ (quote e.1).toList ++ ':' :: [' '] ++
        (prettyAt level e.2).toList) := by
  induction fields with
  | nil => rfl
  | cons e fields ih =>
    obtain ⟨k, v⟩ := e
    cases fields with
    | nil => simp [prettyFields]
    | cons d fields =>
      rw [prettyFields, String.toList_append, ih]
      · simp
      · rintro ⟨⟩

theorem spaces_newline (level : Nat) : Spaces (newline level).toList := by
  intro c hc
  rw [newline, String.toList_append, List.mem_append] at hc
  rcases hc with hc | hc
  · rw [List.mem_singleton.1 hc]
    rfl
  · rw [String.toList_ofList] at hc
    rw [List.eq_of_mem_replicate hc]
    rfl

/-- The text without blanks gives the value. -/
theorem writes_compact (h : v.IsJson decimal) : Writes decimal (compact v).toList v := by
  induction h with
  | null => exact writes_null
  | bool b => exact writes_bool
  | int h => exact writes_int h
  | float h => exact writes_float h
  | text s => exact writes_quote
  | list _ ih =>
    rw [compact, String.toList_append, String.toList_append, toList_compactItems]
    simpa using writes_list ih spaces_nil
  | record _ ih =>
    rw [compact, String.toList_append, String.toList_append, toList_compactFields]
    simpa using writes_record (fun e he => writesField (ih e he) spaces_nil spaces_nil) spaces_nil

/-- The text on several lines gives the value. -/
theorem writes_prettyAt {level : Nat} (h : v.IsJson decimal) :
    Writes decimal (prettyAt level v).toList v := by
  have hline := spaces_newline
  induction h generalizing level with
  | null => exact writes_null
  | bool b => exact writes_bool
  | int h => exact writes_int h
  | float h => exact writes_float h
  | text s => exact writes_quote
  | @list items _ ih =>
    cases items with
    | nil =>
      rw [prettyAt]
      exact writes_list (List.forall_mem_nil fun v => Writes decimal [] v) spaces_nil
    | cons v items =>
      rw [prettyAt, String.toList_append, String.toList_append, String.toList_append,
        toList_prettyItems]
      simpa using writes_list (fun v hv => (ih v hv).spaces (hline (level + 1))) (hline level)
  | @record fields _ ih =>
    cases fields with
    | nil =>
      rw [prettyAt]
      exact writes_record (List.forall_mem_nil fun e => WritesField decimal [] e) spaces_nil
    | cons e fields =>
      rw [prettyAt, String.toList_append, String.toList_append, String.toList_append,
        toList_prettyFields]
      have hgap : Spaces [' '] := List.forall_mem_singleton.2 rfl
      simpa using writes_record
        (fun e he => writesField (ih e he) (hline (level + 1)) hgap) (hline level)

theorem read_of_writes {text : String} (h : Writes decimal text.toList v) :
    read decimal text = some v := by
  have hrun := h [] [] wordEnds_nil
  rwa [List.append_nil] at hrun

/-- **Reading the text without blanks gives the value back.** -/
theorem read_compact (h : v.IsJson decimal) : read decimal (compact v) = some v :=
  read_of_writes (writes_compact h)

/-- **Reading the text on several lines gives the value back.** -/
theorem read_pretty (h : v.IsJson decimal) : read decimal (pretty v) = some v :=
  read_of_writes (writes_prettyAt h)

/-- Values are told apart by their texts. -/
theorem compact_inj {u : Value} (hu : u.IsJson decimal) (hv : v.IsJson decimal) :
    compact u = compact v ↔ u = v := by
  refine ⟨fun h => ?_, congrArg compact⟩
  rw [← Option.some_inj, ← read_compact hu, ← read_compact hv, h]

/-! ## Texts on one line -/

theorem newline_not_mem_escapeChar : '\n' ∉ escapeChar c := by
  have hdigit : ∀ n < 32, '\n' ≠ hexDigit n := by decide
  have hhigh (h : c.toNat < 32) : '\n' ≠ hexDigit (c.toNat / 16) := hdigit _ (by omega)
  have hlow : '\n' ≠ hexDigit (c.toNat % 16) := hdigit _ (by omega)
  have hself (h : ¬c = '\n') : '\n' ≠ c := Ne.symm h
  unfold escapeChar
  split_ifs <;> simp [*]

theorem newline_not_mem_quote : '\n' ∉ (quote s).toList := by
  rw [quote, String.toList_ofList]
  simp [newline_not_mem_escapeChar]

theorem newline_not_mem_of_isPlain (h : ∀ c ∈ cs, isPlain c = true) : '\n' ∉ cs :=
  fun hm => Bool.false_ne_true (h '\n' hm)

theorem newline_not_mem_intercalate {l : List (List Char)} (h : ∀ cs ∈ l, '\n' ∉ cs) :
    '\n' ∉ [','].intercalate l := by
  induction l with
  | nil => exact List.not_mem_nil
  | cons cs l ih =>
    obtain ⟨hcs, hl⟩ := List.forall_mem_cons.1 h
    cases l with
    | nil => rwa [List.intercalate_singleton]
    | cons ds l =>
      rw [List.intercalate_cons_cons]
      simp [hcs, ih hl]

/-- The text without blanks is one line. -/
theorem newline_not_mem_compact (h : v.IsJson decimal) : '\n' ∉ (compact v).toList := by
  induction h with
  | null => decide
  | bool b => cases b <;> decide
  | int _ => exact newline_not_mem_of_isPlain fun _ => isPlain_of_mem_toString
  | float _ => exact newline_not_mem_of_isPlain fun _ => isPlain_of_mem_number
  | text s => exact newline_not_mem_quote
  | @list items _ ih =>
    have hitems := newline_not_mem_intercalate (List.forall_mem_map.2 ih)
    rw [compact, String.toList_append, String.toList_append, toList_compactItems]
    simp [hitems]
  | @record fields _ ih =>
    have hfields := newline_not_mem_intercalate (l := fields.map fun e =>
      (quote e.1).toList ++ ':' :: (compact e.2).toList)
      (List.forall_mem_map.2 fun e he => by simp [newline_not_mem_quote, ih e he])
    rw [compact, String.toList_append, String.toList_append, toList_compactFields]
    simp [hfields]

theorem append_cons_inj {rest' : List Char} (hc : c ∉ cs) (hd : c ∉ ds)
    (h : cs ++ c :: rest = ds ++ c :: rest') : cs = ds ∧ rest = rest' := by
  induction cs generalizing ds with
  | nil =>
    cases ds with
    | nil => exact ⟨rfl, (List.cons.inj h).2⟩
    | cons d ds => exact absurd (List.cons.inj h).1 (List.ne_of_not_mem_cons hd)
  | cons a cs ih =>
    cases ds with
    | nil => exact absurd (List.cons.inj h).1.symm (List.ne_of_not_mem_cons hc)
    | cons d ds =>
      obtain ⟨rfl, htail⟩ := List.cons.inj h
      obtain ⟨rfl, rfl⟩ :=
        ih (List.not_mem_of_not_mem_cons hc) (List.not_mem_of_not_mem_cons hd) htail
      exact ⟨rfl, rfl⟩

/-- Data written on lines are told apart by the ends of lines. -/
theorem lines_inj {α : Type} {f : α → List Char} {l m : List α} (hl : ∀ a ∈ l, '\n' ∉ f a)
    (hm : ∀ b ∈ m, '\n' ∉ f b) (hf : ∀ a ∈ l, ∀ b ∈ m, f a = f b → a = b)
    (h : (l.flatMap fun a => f a ++ ['\n']) = m.flatMap fun b => f b ++ ['\n']) : l = m := by
  induction l generalizing m with
  | nil =>
    cases m with
    | nil => rfl
    | cons b m => simp at h
  | cons a l ih =>
    cases m with
    | nil => simp at h
    | cons b m =>
      obtain ⟨ha, hl'⟩ := List.forall_mem_cons.1 hl
      obtain ⟨hb, hm'⟩ := List.forall_mem_cons.1 hm
      rw [List.flatMap_cons, List.flatMap_cons, List.append_assoc, List.append_assoc,
        List.singleton_append, List.singleton_append] at h
      obtain ⟨hab, hrest⟩ := append_cons_inj ha hb h
      obtain rfl := hf a List.mem_cons_self b List.mem_cons_self hab
      rw [ih hl' hm' (fun x hx y hy =>
        hf x (List.mem_cons_of_mem _ hx) y (List.mem_cons_of_mem _ hy)) hrest]

end Json

end Wiring
