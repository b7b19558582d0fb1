import Mathlib.Data.List.TakeWhile
import Wiring.Proofs.Universe.Vocabulary
import Wiring.TypeExpr.Parser
/-!
# The grammar of written types

A written type is a name, or a name with arguments in angle brackets, with white space around
everything: `ws name ws ['<' type {ws ',' type} ws '>'] ws`. `TypeExpr.Written` is this grammar,
`TypeExpr.IsName` the shape of names.

* `TypeExpr.parse_eq_ok_iff`: a text is read as a type exactly if the grammar derives it, so each
  text is derived for at most one type.
* `TypeExpr.parse_render`: reading the written form of a type without variables gives it back.
* `TypeExpr.bind_parse_render`: variables are written like names, and binding the parameters again
  tells them apart.

Reading is looked at lexeme by lexeme: `Reading.run` reads the rest of a text in the middle of it.
A derivation drives a run through its text (`TypeExpr.Written.run`), and a run that succeeds leaves
a derivation behind (`TypeExpr.Reading.exists_written`).
-/

namespace Wiring

open Resolver (bind_eq_ok)

/-! ## The grammar -/

/-- White space only. -/
abbrev Blank (cs : List Char) : Prop := ∀ c ∈ cs, isBlank c = true

namespace TypeExpr

/-- The name of a type: a run of name characters whose dots are single and inside. -/
structure IsName (cs : List Char) : Prop where
  /-- There is a character. -/
  nonempty : cs ≠ []
  /-- All may stand in a name. -/
  chars : ∀ c ∈ cs, Lexeme.isNameChar c = true
  /-- The first is no dot. -/
  leading : cs.head? ≠ some '.'
  /-- The last is no dot. -/
  trailing : cs.getLast? ≠ some '.'
  /-- No two dots follow one another. -/
  doubled : ¬ ['.', '.'] <:+: cs

mutual

/-- The text is derived for the type. -/
inductive Written : List Char → TypeExpr → Prop
  /-- A name alone. -/
  | plain {lead name mid trail : List Char} (hl : Blank lead) (hn : IsName name) (hm : Blank mid)
      (ht : Blank trail) : Written (lead ++ name ++ mid ++ trail) (.named (String.ofList name) [])
  /-- A name with arguments. -/
  | applied {lead name mid first rest inner trail : List Char} {a : TypeExpr} {as : List TypeExpr}
      (hl : Blank lead) (hn : IsName name) (hm : Blank mid) (ha : Written first a)
      (has : WrittenRest rest as) (hi : Blank inner) (ht : Blank trail) :
      Written (lead ++ name ++ mid ++ '<' :: (first ++ rest ++ inner ++ '>' :: trail))
        (.named (String.ofList name) (a :: as))

/-- The text is derived for the arguments after the first. -/
inductive WrittenRest : List Char → List TypeExpr → Prop
  /-- There are none. -/
  | nil : WrittenRest [] []
  /-- A comma and an argument, and then others. -/
  | cons {lead cs rest : List Char} {t : TypeExpr} {ts : List TypeExpr} (hl : Blank lead)
      (ht : Written cs t) (hts : WrittenRest rest ts) :
      WrittenRest (lead ++ ',' :: (cs ++ rest)) (t :: ts)

end

variable {c : Char} {cs ds ws rest name : List Char} {t u : TypeExpr} {ts args : List TypeExpr}
  {n : String} {o : Nat} {outer stack : OpenTypes} {x y : Reading}

/-! ## Names -/

theorem blank_append : Blank (cs ++ ds) ↔ Blank cs ∧ Blank ds := List.forall_mem_append

theorem isNameChar_of_isBlank (h : isBlank c = true) : Lexeme.isNameChar c = false := by
  have hall : ∀ n ∈ blankCodes, Lexeme.isNameChar (Char.ofNat n) = false := by decide +kernel
  have hc := hall c.toNat (List.contains_iff_mem.1 h)
  rwa [Char.ofNat_toNat] at hc

theorem isWellDotted_go_iff :
    isWellDotted.go c cs = true ↔ (c :: cs).getLast? ≠ some '.' ∧ ¬ ['.', '.'] <:+: c :: cs := by
  induction cs generalizing c with
  | nil => simp [isWellDotted.go, List.infix_cons_iff]
  | cons d ds ih =>
    have hpair : ['.', '.'] <+: c :: d :: ds ↔ c = '.' ∧ d = '.' := by
      simp [List.cons_prefix_cons, eq_comm]
    have hinfix : ['.', '.'] <:+: c :: d :: ds ↔
        ['.', '.'] <+: c :: d :: ds ∨ ['.', '.'] <:+: d :: ds := List.infix_cons_iff
    rw [isWellDotted.go, Bool.and_eq_true, ih, hinfix, hpair, List.getLast?_cons_cons]
    simp only [Bool.not_eq_true', Bool.and_eq_false_iff, beq_eq_false_iff_ne]
    tauto

/-- The names whose dots are single and inside, as they are checked. -/
theorem isName_iff : IsName cs ↔
    cs ≠ [] ∧ (∀ c ∈ cs, Lexeme.isNameChar c = true) ∧ isWellDotted cs = true := by
  cases cs with
  | nil => exact ⟨fun h => absurd rfl h.nonempty, fun h => absurd rfl h.1⟩
  | cons c cs =>
    have hdots : isWellDotted (c :: cs) = true ↔ c ≠ '.' ∧ isWellDotted.go c cs = true := by
      by_cases hc : c = '.'
      · subst hc
        simp [isWellDotted]
      · rw [isWellDotted]
        · simp [hc]
        · rintro rfl
          exact hc rfl
    rw [hdots, isWellDotted_go_iff]
    constructor
    · intro h
      exact ⟨h.nonempty, h.chars, fun e => h.leading (by rw [e]; rfl), h.trailing, h.doubled⟩
    · rintro ⟨hn, hc, hl, ht, hd⟩
      exact ⟨hn, hc, by simpa using hl, ht, hd⟩

/-! ## Lexemes -/

/-- The number of bytes that the characters take. -/
def byteLength : List Char → Nat
  | [] => 0
  | c :: cs => c.utf8Size + byteLength cs

@[simp] theorem byteLength_nil : byteLength [] = 0 := rfl

@[simp] theorem byteLength_cons (c : Char) (cs : List Char) :
    byteLength (c :: cs) = c.utf8Size + byteLength cs := rfl

@[simp] theorem byteLength_append (cs ds : List Char) :
    byteLength (cs ++ ds) = byteLength cs + byteLength ds := by
  induction cs with
  | nil => simp
  | cons c cs ih => simp [ih, Nat.add_assoc]

theorem isBlank_of_isNameChar (h : Lexeme.isNameChar c = true) : isBlank c = false := by
  by_contra hb
  rw [isNameChar_of_isBlank (Bool.not_eq_false _ ▸ hb)] at h
  cases h

theorem offset_of_mem_consNameChar {l : Lexeme} {ls : List Lexeme}
    (h : l ∈ Lexeme.consNameChar o c ls) : l.offset = o ∨ l ∈ ls := by
  unfold Lexeme.consNameChar at h
  split at h
  · split at h
    · exact (List.mem_cons.1 h).imp (congrArg Lexeme.offset) (List.mem_cons_of_mem _)
    · exact (List.mem_cons.1 h).imp_left (congrArg Lexeme.offset)
  · exact (List.mem_cons.1 h).imp_left (congrArg Lexeme.offset)

theorem le_offset_of_mem_scan {l : Lexeme} (h : l ∈ Lexeme.scan o cs) : o ≤ l.offset := by
  induction cs generalizing o with
  | nil => cases h
  | cons c cs ih =>
    have hrest (h : l ∈ Lexeme.scan (o + c.utf8Size) cs) : o ≤ l.offset :=
      (Nat.le_add_right _ _).trans (ih h)
    rw [Lexeme.scan] at h
    split at h
    · exact hrest h
    · split at h
      · exact (offset_of_mem_consNameChar h).elim Eq.ge hrest
      · exact (List.mem_cons.1 h).elim (fun e => (congrArg Lexeme.offset e).ge) hrest

/-- The text does not go on with a name character. -/
abbrev NameEnds (cs : List Char) : Prop := ∀ c ∈ cs.head?, Lexeme.isNameChar c = false

/-- A text that does not go on with a name character has no name at its start. -/
theorem scan_ne_name (h : NameEnds rest) (ls : List Lexeme) :
    Lexeme.scan o rest ≠ .name o cs :: ls := by
  intro e
  cases rest with
  | nil => cases e
  | cons c rest =>
    have hc : Lexeme.isNameChar c = false := h c rfl
    have hpos := c.utf8Size_pos
    rw [Lexeme.scan, hc] at e
    split at e
    · have hle := le_offset_of_mem_scan (e ▸ List.mem_cons_self)
      simp only [Lexeme.offset] at hle
      omega
    · cases e

theorem consNameChar_of_ne {ls : List Lexeme}
    (h : ∀ ds rest, ls ≠ .name (o + c.utf8Size) ds :: rest) :
    Lexeme.consNameChar o c ls = .name o [c] :: ls := by
  unfold Lexeme.consNameChar
  split
  · next o' ds rest =>
    rw [if_neg]
    rintro rfl
    exact h ds rest rfl
  · rfl

/-- A run of name characters is one lexeme. -/
theorem scan_name (hn : name ≠ []) (hc : ∀ c ∈ name, Lexeme.isNameChar c = true)
    (hr : NameEnds rest) :
    Lexeme.scan o (name ++ rest) = .name o name :: Lexeme.scan (o + byteLength name) rest := by
  induction name generalizing o with
  | nil => exact absurd rfl hn
  | cons c name ih =>
    have hnc := hc c List.mem_cons_self
    rw [List.cons_append, Lexeme.scan, isBlank_of_isNameChar hnc, hnc]
    simp only [Bool.false_eq_true, if_false, if_true]
    cases name with
    | nil =>
      rw [List.nil_append, consNameChar_of_ne fun ds ls => scan_ne_name hr ls]
      simp [byteLength]
    | cons d name =>
      rw [ih (List.cons_ne_nil d name) (fun x hx => hc x (List.mem_cons_of_mem _ hx)),
        Lexeme.consNameChar, if_pos rfl]
      simp [byteLength, Nat.add_assoc]

/-! ## Runs -/

namespace Reading

/-- Reads the rest of a text, from an offset on. -/
def run (o : Nat) (cs : List Char) (x : Reading) : Except SyntaxError TypeExpr := do
  (← (Lexeme.scan o cs).foldlM next x).finish

@[simp] theorem run_nil (o : Nat) (x : Reading) : run o [] x = x.finish := rfl

theorem run_of_scan {o' : Nat} {l : Lexeme} (h : Lexeme.scan o cs = l :: Lexeme.scan o' ds) :
    run o cs x = x.next l >>= run o' ds := by
  rw [run, h, List.foldlM_cons, bind_assoc]
  rfl

/-- White space is passed over. -/
theorem run_blank (h : Blank ws) : run o (ws ++ cs) x = run (o + byteLength ws) cs x := by
  induction ws generalizing o with
  | nil => simp [byteLength]
  | cons c ws ih =>
    obtain ⟨hc, hws⟩ := List.forall_mem_cons.1 h
    have hstep : run o (c :: (ws ++ cs)) x = run (o + c.utf8Size) (ws ++ cs) x := by
      rw [run, Lexeme.scan, if_pos hc]
      rfl
    rw [List.cons_append, hstep, ih hws]
    simp [byteLength, Nat.add_assoc]

theorem run_sign (hb : isBlank c = false) (hn : Lexeme.isNameChar c = false) :
    run o (c :: cs) x = x.next (.sign o c) >>= run (o + c.utf8Size) cs :=
  run_of_scan (by rw [Lexeme.scan, hb, hn]; rfl)

theorem run_name (hn : name ≠ []) (hc : ∀ c ∈ name, Lexeme.isNameChar c = true)
    (hr : NameEnds rest) :
    run o (name ++ rest) x = x.next (.name o name) >>= run (o + byteLength name) rest :=
  run_of_scan (scan_name hn hc hr)

end Reading

/-! ## A derivation drives a run -/

/-- After white space, the text ends or goes on with a comma or a closing bracket. -/
inductive Stops : List Char → Prop
  /-- It ends. -/
  | nil : Stops []
  /-- A sign follows. -/
  | sign {c : Char} {cs : List Char} (h : c = ',' ∨ c = '>') : Stops (c :: cs)
  /-- There is white space first. -/
  | blank {c : Char} {cs : List Char} (hc : isBlank c = true) (h : Stops cs) : Stops (c :: cs)

theorem Stops.append (h : Stops cs) (hw : Blank ws) : Stops (ws ++ cs) := by
  induction ws with
  | nil => exact h
  | cons c ws ih =>
    obtain ⟨hc, hw⟩ := List.forall_mem_cons.1 hw
    exact .blank hc (ih hw)

theorem Stops.nameEnds (h : Stops cs) : NameEnds cs := by
  intro c hc
  cases h with
  | nil => cases hc
  | sign h =>
    cases hc
    rcases h with rfl | rfl <;> decide
  | blank hb h =>
    cases hc
    exact isNameChar_of_isBlank hb

/-- A visible character starts a lexeme. -/
theorem exists_scan (o : Nat) (cs : List Char) (hb : isBlank c = false) :
    ∃ (l : Lexeme) (ls : List Lexeme), Lexeme.scan o (c :: cs) = l :: ls ∧ l.firstChar = c := by
  rw [Lexeme.scan, hb]
  simp only [Bool.false_eq_true, if_false]
  split
  · unfold Lexeme.consNameChar
    split
    · split <;> exact ⟨_, _, rfl, rfl⟩
    · exact ⟨_, _, rfl, rfl⟩
  · exact ⟨_, _, rfl, rfl⟩

/-- What a run does with a visible character. -/
theorem run_cons (o : Nat) (cs : List Char) (hb : isBlank c = false) :
    ∃ (l : Lexeme) (ls : List Lexeme), l.firstChar = c ∧ ∀ x, Reading.run o (c :: cs) x =
      x.next l >>= fun y => (ls.foldlM Reading.next y >>= Reading.finish) := by
  obtain ⟨l, ls, hl, hc⟩ := exists_scan o cs hb
  refine ⟨l, ls, hc, fun x => ?_⟩
  rw [Reading.run, hl, List.foldlM_cons, bind_assoc]

/-- A name that no bracket follows is a type. -/
theorem run_named_of_ne (hb : isBlank c = false) (hc : c ≠ '<') :
    Reading.run o (c :: cs) (.named n stack) =
      Reading.run o (c :: cs) (.closed (.named n []) stack) := by
  obtain ⟨l, ls, rfl, hrun⟩ := run_cons o cs hb
  have hnext : Reading.next (.named n stack) l = Reading.next (.closed (.named n []) stack) l :=
    if_neg hc
  rw [hrun, hrun, hnext]

theorem run_named_nil :
    Reading.run o [] (.named n stack) = Reading.run o [] (.closed (.named n []) stack) := by
  cases stack <;> rfl

theorem Stops.run_named (h : Stops cs) :
    Reading.run o cs (.named n stack) = Reading.run o cs (.closed (.named n []) stack) := by
  induction h generalizing o with
  | nil => exact run_named_nil
  | @sign c cs h => rcases h with rfl | rfl <;> exact run_named_of_ne (by decide) (by decide)
  | @blank c cs hc h ih =>
    have hblank : Blank [c] := List.forall_mem_singleton.2 hc
    exact (Reading.run_blank hblank).trans (ih.trans (Reading.run_blank hblank).symm)

/-- Reading the text leads from where a type must start to where the type is closed. -/
def Drives (cs : List Char) (t : TypeExpr) : Prop :=
  ∀ (o : Nat) (rest : List Char) (stack : OpenTypes), Stops rest →
    Reading.run o (cs ++ rest) (.start stack) =
      Reading.run (o + byteLength cs) rest (.closed t stack)

/-- A name is read. -/
theorem run_isName (hl : Blank ws) (hn : IsName name) (hr : NameEnds rest) :
    Reading.run o (ws ++ name ++ rest) (.start stack) =
      Reading.run (o + byteLength (ws ++ name)) rest (.named (String.ofList name) stack) := by
  obtain ⟨hne, hc, hd⟩ := isName_iff.1 hn
  rw [List.append_assoc, Reading.run_blank hl, Reading.run_name hne hc hr, Reading.next, if_pos hd,
    byteLength_append, Nat.add_assoc]
  rfl

theorem WrittenRest.stops {inner : List Char} (h : WrittenRest cs ts) (hi : Blank inner) :
    Stops (cs ++ inner ++ '>' :: rest) := by
  cases h with
  | nil => exact Stops.append (.sign (.inr rfl)) hi
  | cons hl ht hts =>
    rw [List.append_assoc, List.append_assoc]
    exact Stops.append (.sign (.inl rfl)) hl

/-- The arguments after the first and the closing bracket are read. -/
theorem WrittenRest.run {inner : List Char} (h : WrittenRest cs ts) (hi : Blank inner)
    (ih : ∀ t ∈ ts, ∀ ds, Written ds t → Drives ds t) :
    Reading.run o (cs ++ inner ++ '>' :: rest) (.closed t ((n, args) :: outer)) =
      Reading.run (o + byteLength (cs ++ inner ++ ['>'])) rest
        (.closed (.named n (args ++ t :: ts)) outer) := by
  induction ts generalizing cs t args o with
  | nil =>
    cases h
    have hclose : Reading.next (.closed t ((n, args) :: outer)) (.sign (o + byteLength inner) '>') =
        .ok (.closed (.named n (args ++ [t])) outer) := rfl
    rw [List.nil_append, Reading.run_blank hi, Reading.run_sign (by decide) (by decide), hclose,
      byteLength_append, ← Nat.add_assoc]
    rfl
  | cons u ts ihs =>
    cases h with
    | @cons lead ds rs _ _ hl hu hts =>
      have hcomma : Reading.next (.closed t ((n, args) :: outer)) (.sign (o + byteLength lead) ',') =
          .ok (.start ((n, args ++ [t]) :: outer)) := rfl
      have hassoc : lead ++ ',' :: (ds ++ rs) ++ inner ++ '>' :: rest =
          lead ++ ',' :: (ds ++ (rs ++ inner ++ '>' :: rest)) := by simp
      rw [hassoc, Reading.run_blank hl, Reading.run_sign (by decide) (by decide), hcomma]
      have hdrive := ih u List.mem_cons_self ds hu (o + byteLength lead + Char.utf8Size ',')
        (rs ++ inner ++ '>' :: rest) ((n, args ++ [t]) :: outer) (hts.stops hi)
      refine hdrive.trans ?_
      rw [ihs hts fun t ht => ih t (List.mem_cons_of_mem _ ht)]
      simp [Nat.add_assoc]

/-- **A derivation drives a run.** -/
theorem Written.drives (h : Written cs t) : Drives cs t := by
  induction t using ind generalizing cs with
  | var x => cases h
  | named n args ih =>
    intro o rest stack hs
    cases h with
    | @plain lead name mid trail hl hn hm ht =>
      have hstops : Stops (mid ++ trail ++ rest) := by
        rw [List.append_assoc]
        exact (hs.append ht).append hm
      rw [List.append_assoc (lead ++ name) mid, List.append_assoc (lead ++ name),
        run_isName hl hn hstops.nameEnds, hstops.run_named,
        Reading.run_blank (blank_append.2 ⟨hm, ht⟩)]
      simp [Nat.add_assoc]
    | @applied lead name mid first rs inner trail a as hl hn hm ha has hi ht =>
      have hbracket : NameEnds (mid ++ '<' :: (first ++ (rs ++ inner ++ '>' :: (trail ++ rest)))) := by
        intro c hc
        cases mid with
        | nil =>
          cases hc
          decide
        | cons d mid =>
          cases hc
          exact isNameChar_of_isBlank (hm c List.mem_cons_self)
      have hassoc : lead ++ name ++ mid ++ '<' :: (first ++ rs ++ inner ++ '>' :: trail) ++ rest =
          lead ++ name ++ (mid ++ '<' :: (first ++ (rs ++ inner ++ '>' :: (trail ++ rest)))) := by
        simp
      rw [hassoc, run_isName hl hn hbracket, Reading.run_blank hm,
        Reading.run_sign (by decide) (by decide)]
      have hopen (o : Nat) : Reading.next (.named (String.ofList name) stack) (.sign o '<') =
          .ok (.start ((String.ofList name, []) :: stack)) := rfl
      rw [hopen]
      refine (ih a List.mem_cons_self ha _ _ _ (has.stops hi)).trans ?_
      rw [has.run hi fun t ht ds => ih t (List.mem_cons_of_mem _ ht), Reading.run_blank ht]
      simp [Nat.add_assoc]

/-! ## A run leaves a derivation behind -/

/-- A text is cut after its longest beginning of characters of some kind. -/
theorem exists_append (p : Char → Bool) (cs : List Char) : ∃ as bs, cs = as ++ bs ∧
    (∀ c ∈ as, p c = true) ∧ ∀ c ∈ bs.head?, p c = false := by
  refine ⟨cs.takeWhile p, cs.dropWhile p, List.takeWhile_append_dropWhile.symm,
    fun c hc => List.mem_takeWhile_imp hc, fun c hc => ?_⟩
  have h := List.head?_dropWhile_not p cs
  rw [hc] at h
  simpa using h

/-- White space belongs to a type on both sides. -/
theorem Written.append_blank (h : Written cs t) (hw : Blank ws) : Written (cs ++ ws) t := by
  cases h with
  | plain hl hn hm ht =>
    rw [List.append_assoc]
    exact .plain hl hn hm (blank_append.2 ⟨ht, hw⟩)
  | applied hl hn hm ha has hi ht =>
    have h := Written.applied hl hn hm ha has hi (blank_append.2 ⟨ht, hw⟩)
    simpa using h

theorem next_name {ds : List Char} (h : Reading.next (.start stack) (.name o ds) = .ok x) :
    isWellDotted ds = true ∧ x = .named (String.ofList ds) stack := by
  rw [Reading.next] at h
  split at h
  · next hd =>
    cases h
    exact ⟨hd, rfl⟩
  · cases h

mutual

/-- **Where a type must start and the rest is read, a type is derived.** -/
theorem Reading.exists_written {o : Nat} {cs : List Char} {stack : OpenTypes}
    (h : Reading.run o cs (.start stack) = .ok t) :
    ∃ pre post u o', cs = pre ++ post ∧ Written pre u ∧
      Reading.run o' post (.closed u stack) = .ok t := by
  obtain ⟨lead, cs, rfl, hl, hv⟩ := exists_append isBlank cs
  rw [Reading.run_blank hl] at h
  obtain ⟨name, cs, rfl, hn, hr⟩ := exists_append Lexeme.isNameChar cs
  cases name with
  | nil =>
    cases cs with
    | nil => cases h
    | cons c cs =>
      rw [List.nil_append, Reading.run_sign (hv c rfl) (hr c rfl)] at h
      cases h
  | cons d name =>
    rw [Reading.run_name (List.cons_ne_nil d name) hn hr] at h
    obtain ⟨x, hx, h⟩ := bind_eq_ok.1 h
    obtain ⟨hd, rfl⟩ := next_name hx
    have hname : IsName (d :: name) := isName_iff.2 ⟨List.cons_ne_nil d name, hn, hd⟩
    obtain ⟨mid, cs, rfl, hm, hv⟩ := exists_append isBlank cs
    rw [Reading.run_blank hm] at h
    have hplain : Written (lead ++ (d :: name) ++ mid) (.named (String.ofList (d :: name)) []) := by
      simpa using Written.plain hl hname hm (List.forall_mem_nil _)
    cases cs with
    | nil =>
      rw [run_named_nil] at h
      exact ⟨_, [], _, _, by simp, hplain, h⟩
    | cons c cs =>
      by_cases hc : c = '<'
      · subst hc
        rw [Reading.run_sign (by decide) (by decide)] at h
        have h : Reading.run _ cs (.start ((String.ofList (d :: name), []) :: stack)) = .ok t := h
        obtain ⟨first, cs, a, o', rfl, ha, h⟩ := Reading.exists_written h
        obtain ⟨rest, inner, post, as, o', rfl, has, hi, h⟩ := Reading.exists_writtenRest h
        refine ⟨_, post, _, o', ?_, .applied hl hname hm ha has hi (List.forall_mem_nil _), h⟩
        simp
      · rw [run_named_of_ne (hv c rfl) hc] at h
        exact ⟨_, c :: cs, _, _, by simp, hplain, h⟩
termination_by cs.length
decreasing_by all_goals (subst_vars; simp; try omega)

/-- Where an argument is closed and the rest is read, the other arguments are derived. -/
theorem Reading.exists_writtenRest {o : Nat} {cs : List Char} {u : TypeExpr} {n : String}
    {args : List TypeExpr} {outer : OpenTypes}
    (h : Reading.run o cs (.closed u ((n, args) :: outer)) = .ok t) :
    ∃ rest inner post ts o', cs = rest ++ inner ++ '>' :: post ∧ WrittenRest rest ts ∧
      Blank inner ∧ Reading.run o' post (.closed (.named n (args ++ u :: ts)) outer) = .ok t := by
  obtain ⟨lead, cs, rfl, hl, hv⟩ := exists_append isBlank cs
  rw [Reading.run_blank hl] at h
  cases cs with
  | nil => cases h
  | cons c cs =>
    by_cases hc : c = ','
    · subst hc
      rw [Reading.run_sign (by decide) (by decide)] at h
      have h : Reading.run _ cs (.start ((n, args ++ [u]) :: outer)) = .ok t := h
      obtain ⟨ds, cs, v, o', rfl, hw, h⟩ := Reading.exists_written h
      obtain ⟨rest, inner, post, ts, o', rfl, hws, hi, h⟩ := Reading.exists_writtenRest h
      refine ⟨_, inner, post, v :: ts, o', ?_, .cons hl hw hws, hi, by simpa using h⟩
      simp
    · by_cases hc' : c = '>'
      · subst hc'
        rw [Reading.run_sign (by decide) (by decide)] at h
        exact ⟨[], lead, cs, [], _, rfl, .nil, hl, h⟩
      · obtain ⟨l, ls, rfl, hrun⟩ := run_cons (o + byteLength lead) cs (hv c rfl)
        rw [hrun] at h
        obtain ⟨x, hx, -⟩ := bind_eq_ok.1 h
        simp only [Reading.next, Reading.afterType, if_neg hc, if_neg hc'] at hx
        cases hx
termination_by cs.length
decreasing_by all_goals (subst_vars; simp; try omega)

end

/-! ## Reading and writing -/

/-- **Reading accepts exactly the grammar**, and gives the type that is derived. -/
theorem parse_eq_ok_iff {text : String} : parse text = .ok t ↔ Written text.toList t := by
  constructor
  · intro h
    have hrun : Reading.run 0 text.toList (.start []) = .ok t := h
    obtain ⟨pre, post, u, o, hcs, hu, h⟩ := Reading.exists_written hrun
    rw [hcs]
    obtain ⟨trail, cs, rfl, ht, hv⟩ := exists_append isBlank post
    rw [Reading.run_blank ht] at h
    cases cs with
    | nil =>
      cases h
      simpa using hu.append_blank ht
    | cons c cs =>
      -- Nothing but white space may follow the whole type.
      obtain ⟨l, ls, -, hrun⟩ := run_cons (o + byteLength trail) cs (hv c rfl)
      rw [hrun] at h
      cases h
  · intro h
    have hrun := h.drives 0 [] [] .nil
    rw [List.append_nil] at hrun
    exact hrun

/-- A text is derived for one type at most. -/
theorem Written.unique (ht : Written cs t) (hu : Written cs u) : t = u := by
  rw [← String.toList_ofList (l := cs)] at ht hu
  exact Except.ok.inj ((parse_eq_ok_iff.2 ht).symm.trans (parse_eq_ok_iff.2 hu))

/-- There are no variables, and all names have the shape of names. -/
abbrev Writable (t : TypeExpr) : Prop := t.Over (fun n => IsName n.toList) fun _ => False

theorem Written.writable (h : Written cs t) : t.Writable := by
  have hrest {ts : List TypeExpr} (ih : ∀ t ∈ ts, ∀ cs, Written cs t → t.Writable) :
      ∀ cs, WrittenRest cs ts → ∀ t ∈ ts, t.Writable := by
    induction ts with
    | nil => simp
    | cons t ts ihs =>
      intro cs h
      cases h with
      | cons hl ht hts =>
        refine List.forall_mem_cons.2 ⟨ih t List.mem_cons_self _ ht, ?_⟩
        exact ihs (fun t ht => ih t (List.mem_cons_of_mem _ ht)) _ hts
  induction t using ind generalizing cs with
  | var x => cases h
  | named n args ih =>
    cases h with
    | plain hl hn hm ht => exact .named (by simpa using hn) (List.forall_mem_nil _)
    | applied hl hn hm ha has hi ht =>
      refine .named (by simpa using hn) (List.forall_mem_cons.2 ⟨ih _ List.mem_cons_self ha, ?_⟩)
      exact hrest (fun t ht cs => ih t (List.mem_cons_of_mem _ ht)) _ has

/-- **What is read has no variables, and its names have the shape of names.** -/
theorem writable_of_parse {text : String} (h : parse text = .ok t) : t.Writable :=
  (parse_eq_ok_iff.1 h).writable

theorem Written.cons_blank (h : Written cs t) (hc : isBlank c = true) : Written (c :: cs) t := by
  cases h with
  | plain hl hn hm ht => exact .plain (List.forall_mem_cons.2 ⟨hc, hl⟩) hn hm ht
  | applied hl hn hm ha has hi ht =>
    exact .applied (List.forall_mem_cons.2 ⟨hc, hl⟩) hn hm ha has hi ht

theorem writtenRest_renderRest (h : ∀ t ∈ ts, Written t.render.toList t) :
    ∃ rest, (renderRest ts).toList = rest ++ ['>'] ∧ WrittenRest rest ts := by
  induction ts with
  | nil => exact ⟨[], rfl, .nil⟩
  | cons t ts ih =>
    obtain ⟨ht, hts⟩ := List.forall_mem_cons.1 h
    obtain ⟨rest, hrest, hw⟩ := ih hts
    refine ⟨[] ++ ',' :: (' ' :: t.render.toList ++ rest), ?_,
      .cons (List.forall_mem_nil _) (ht.cons_blank (by decide)) hw⟩
    simp [renderRest, hrest]

/-- **The written form is derived.** -/
theorem written_render (h : t.Writable) : Written t.render.toList t := by
  induction h with
  | var h => exact h.elim
  | @named n args hn ha ih =>
    have hblank : Blank [] := List.forall_mem_nil _
    cases args with
    | nil =>
      have h := Written.plain hblank hn hblank hblank
      simpa [render] using h
    | cons a as =>
      obtain ⟨hwa, hwas⟩ := List.forall_mem_cons.1 ih
      obtain ⟨rest, hrest, hw⟩ := writtenRest_renderRest hwas
      have h := Written.applied hblank hn hblank hwa hw hblank hblank
      simpa [render, hrest] using h

/-- **Reading undoes writing.** -/
theorem parse_render (h : t.Writable) : parse t.render = .ok t :=
  parse_eq_ok_iff.2 (written_render h)

/-- Variables are written like names. -/
theorem render_bind (ps : List String) (t : TypeExpr) : (t.bind ps).render = t.render := by
  have hrest (ts : List TypeExpr) (h : ∀ t ∈ ts, (t.bind ps).render = t.render) :
      renderRest (ts.map (bind ps)) = renderRest ts := by
    induction ts with
    | nil => rfl
    | cons t ts ih =>
      obtain ⟨ht, hts⟩ := List.forall_mem_cons.1 h
      rw [List.map_cons, renderRest, renderRest, ht, ih hts]
  induction t using ind with
  | var x => rfl
  | named n args ih =>
    cases args with
    | nil =>
      rw [bind]
      split <;> rfl
    | cons a as =>
      obtain ⟨ha, has⟩ := List.forall_mem_cons.1 ih
      rw [bind, bindAll_eq_map, render, render, ha, hrest as has]

/-- **Binding the parameters again tells variables and names apart.** -/
theorem bind_parse_render {text : String} (h : parse text = .ok t) (ps : List String) :
    (parse (t.bind ps).render).map (bind ps) = .ok (t.bind ps) := by
  rw [render_bind, parse_render (writable_of_parse h)]
  rfl

/-- **Written types.** Reading accepts exactly the texts of the grammar and gives the only type that
is derived for the text; it undoes the writing of types without variables whose names are names; and
what was read and then bound to some parameters is written, read and bound to the same again. -/
theorem parse_accepts_grammar_and_undoes_render :
    (∀ text t, parse text = .ok t ↔ Written text.toList t) ∧
    (∀ cs t u, Written cs t → Written cs u → t = u) ∧
    (∀ t, t.Writable → parse t.render = .ok t) ∧
    ∀ text t ps, parse text = .ok t →
      (parse (t.bind ps).render).map (bind ps) = .ok (t.bind ps) :=
  ⟨fun _ _ => parse_eq_ok_iff, fun _ _ _ ht hu => ht.unique hu, fun _ h => parse_render h,
    fun _ _ ps h => bind_parse_render h ps⟩

theorem parse_accepts_grammar_and_undoes_render_map :
    ∃ t, parse " Map < java.String,\tList<T> > " = .ok t ∧
      Written " Map < java.String,\tList<T> > ".toList t ∧ t.Writable ∧
      t.render = "Map<java.String, List<T>>" ∧ parse t.render = .ok t ∧ t.bind ["T"] ≠ t ∧
      (parse (t.bind ["T"]).render).map (bind ["T"]) = .ok (t.bind ["T"]) := by
  obtain ⟨hiff, -, hrender, hbind⟩ := parse_accepts_grammar_and_undoes_render
  have h : parse " Map < java.String,\tList<T> > " =
      .ok (.named "Map" [.named "java.String" [], .named "List" [.named "T" []]]) := by
    decide +kernel
  exact ⟨_, h, (hiff _ _).1 h, writable_of_parse h, by decide +kernel,
    hrender _ (writable_of_parse h), by decide +kernel, hbind _ _ ["T"] h⟩

end TypeExpr

end Wiring
