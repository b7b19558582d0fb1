import Wiring.Proofs.Universe.Finite
/-!
# Assignability is reachability

A search of the supertypes visits every type that its queue reaches, unless it finds something
before: the seen types cut off no way, since the steps from a seen type lead to types that are seen
or queued (`Visited`). So a type that can be found is found (`exists_firstUpward?`), also where the
search without it would never end.

* `Decides` says that a search with a budget decides a proposition.
* `Assignable` and `Wrappable` are what the searches say of pairs of types, `assignable_iff` and
  `wrappable_iff` what they mean.
* `mem_providedNames_iff`: the names under which a declaration is found.
* `assignability_is_reachability` puts them together.
-/

namespace Wiring

namespace Universe

variable {u : Universe} {t s r x : TypeExpr} {n m : Nat} {seen queue start l : List TypeExpr}
  {α : Type} {test : Nat → TypeExpr → Option (Option α)}

/-! ## What can be found is found -/

/-- What a search has come to that has found nothing so far. Its test may need a budget. -/
structure Visited (u : Universe) (test : Nat → TypeExpr → Option (Option α))
    (seen queue : List TypeExpr) : Prop where
  /-- From the types seen, steps lead to types that are seen or queued. -/
  closed : ∀ t ∈ seen, ∀ s, u.Step t s → s ∈ seen ∨ s ∈ queue
  /-- There is nothing at the types seen. -/
  nothing : ∀ t ∈ seen, ∃ n, test n t = some none
  /-- At what the queue reaches the test answers. -/
  answers : ∀ t ∈ queue, ∀ s, u.Reaches t s → ∃ n a, test n s = some a

/-- The search finds something with some budget. -/
def Finds (u : Universe) (test : Nat → TypeExpr → Option (Option α))
    (seen queue : List TypeExpr) : Prop :=
  ∃ n a, u.firstUpwardFrom? (test n) n seen queue = some (some a)

theorem Visited.initial (h : ∀ t ∈ start, ∀ s, u.Reaches t s → ∃ n a, test n s = some a) :
    u.Visited test [] start where
  closed := List.forall_mem_nil _
  nothing := List.forall_mem_nil _
  answers := h

/-- A type that was seen before leaves the queue. -/
theorem Visited.skip (h : u.Visited test seen (t :: queue)) (ht : t ∈ seen) :
    u.Visited test seen queue where
  closed x hx s hs := by
    rcases h.closed x hx s hs with hs | hs
    · exact .inl hs
    · exact (List.mem_cons.1 hs).imp_left fun (e : s = t) => e ▸ ht
  nothing := h.nothing
  answers x hx := h.answers x (List.mem_cons_of_mem _ hx)

/-- A type at which there is nothing leaves its supertypes in the queue. -/
theorem Visited.visit (h : u.Visited test seen (t :: queue)) (ht : test n t = some none) :
    u.Visited test (t :: seen) (queue ++ u.supertypes t) where
  closed x hx s hs := by
    simp only [List.mem_cons, List.mem_append]
    rcases List.mem_cons.1 hx with rfl | hx
    · exact .inr (.inr hs)
    · rcases h.closed x hx s hs with hs | hs
      · exact .inl (.inr hs)
      · rcases List.mem_cons.1 hs with rfl | hs
        · exact .inl (.inl rfl)
        · exact .inr (.inl hs)
  nothing x hx := (List.mem_cons.1 hx).elim (fun e => ⟨n, e ▸ ht⟩) (h.nothing x)
  answers x hx s hr := by
    rcases List.mem_append.1 hx with hx | hx
    · exact h.answers x (List.mem_cons_of_mem _ hx) s hr
    · exact h.answers t List.mem_cons_self s (.step hx hr)

section

variable (hmono : ∀ n m t a, n ≤ m → test n t = some a → test m t = some a)

include hmono

theorem Finds.of_skip (h : u.Finds test seen queue) (ht : t ∈ seen) :
    u.Finds test seen (t :: queue) := by
  obtain ⟨n, a, h⟩ := h
  refine ⟨n + 1, a, ?_⟩
  rw [firstUpwardFrom?, if_pos ht]
  exact firstUpwardFrom?_mono (Nat.le_refl n) (fun t a => hmono n (n + 1) t a (Nat.le_succ n)) h

theorem Finds.of_visit (h : u.Finds test (t :: seen) (queue ++ u.supertypes t)) (hs : t ∉ seen)
    (ht : test n t = some none) : u.Finds test seen (t :: queue) := by
  obtain ⟨m, a, h⟩ := h
  refine ⟨max n m + 1, a, ?_⟩
  rw [firstUpwardFrom?, if_neg hs, hmono n _ t none (by omega) ht]
  exact firstUpwardFrom?_mono (Nat.le_max_right n m) (fun t a => hmono m _ t a (by omega)) h

theorem Finds.head {a : α} (hs : t ∉ seen) (ht : test n t = some (some a)) :
    u.Finds test seen (t :: queue) := by
  refine ⟨n + 1, a, ?_⟩
  rw [firstUpwardFrom?, if_neg hs, hmono n _ t _ (Nat.le_succ n) ht]
  rfl

/-- The search finds something, or the first type of the queue is seen with the next turn, which
leaves the others in front. -/
theorem Visited.turn (h : u.Visited test seen (t :: queue)) :
    u.Finds test seen (t :: queue) ∨ ∃ seen' more, u.Visited test seen' (queue ++ more) ∧
      t ∈ seen' ∧ (u.Finds test seen' (queue ++ more) → u.Finds test seen (t :: queue)) := by
  by_cases hs : t ∈ seen
  · refine .inr ⟨seen, [], ?_, hs, fun hf => ?_⟩
    · rw [List.append_nil]
      exact h.skip hs
    · rw [List.append_nil] at hf
      exact hf.of_skip hmono hs
  · obtain ⟨n, a, ha⟩ := h.answers t List.mem_cons_self t (.refl t)
    cases a with
    | some a => exact .inl (.head hmono hs ha)
    | none =>
      exact .inr ⟨t :: seen, u.supertypes t, h.visit ha, List.mem_cons_self,
        fun hf => hf.of_visit hmono hs ha⟩

/-- **Every queued type is seen in the end**, unless the search finds something before. -/
theorem Visited.exists_seen (h : u.Visited test seen queue) (hx : x ∈ queue) :
    u.Finds test seen queue ∨ ∃ seen' queue', u.Visited test seen' queue' ∧ x ∈ seen' ∧
      (u.Finds test seen' queue' → u.Finds test seen queue) := by
  obtain ⟨front, back, rfl⟩ := List.append_of_mem hx
  clear hx
  -- Each turn takes one type from those in front of `x`.
  induction front generalizing seen back with
  | nil =>
    rcases h.turn hmono with hf | ⟨seen', more, hv, hs, hf⟩
    · exact .inl hf
    · exact .inr ⟨seen', back ++ more, hv, hs, hf⟩
  | cons y front ih =>
    rw [List.cons_append] at h ⊢
    rcases h.turn hmono with hf | ⟨seen', more, hv, -, hback⟩
    · exact .inl hf
    · rw [List.append_assoc, List.cons_append] at hv hback
      rcases ih (back ++ more) hv with hf | ⟨seen'', queue', hv, hs, hf⟩
      · exact .inl (hback hf)
      · exact .inr ⟨seen'', queue', hv, hs, fun h => hback (hf h)⟩

/-- **What can be found is found**: from a seen or queued type the search gets to what it reaches.
The induction is on the way there, each type of which is seen in the end. -/
theorem Visited.finds {a : α} (h : u.Visited test seen queue) (hx : x ∈ seen ∨ x ∈ queue)
    (hr : u.Reaches x t) (ht : test n t = some (some a)) : u.Finds test seen queue := by
  induction hr generalizing seen queue with
  | refl t =>
    have hnot {seen queue} (h : u.Visited test seen queue) : t ∉ seen := fun hs => by
      obtain ⟨m, hm⟩ := h.nothing t hs
      have h₁ := hmono n _ t _ (Nat.le_max_left n m) ht
      rw [hmono m _ t _ (Nat.le_max_right n m) hm] at h₁
      cases h₁
    rcases h.exists_seen hmono (hx.resolve_left (hnot h)) with hf | ⟨_, _, hv, hs, -⟩
    · exact hf
    · exact (hnot hv hs).elim
  | step hstep _ ih =>
    have of_seen {seen queue} (h : u.Visited test seen queue) (hs : _ ∈ seen) :
        u.Finds test seen queue := ih h (h.closed _ hs _ hstep) ht
    rcases hx with hs | hq
    · exact of_seen h hs
    · rcases h.exists_seen hmono hq with hf | ⟨_, _, hv, hs, hf⟩
      · exact hf
      · exact hf (of_seen hv hs)

/-- A search finds what there is to find at the types that its start reaches. -/
theorem exists_firstUpward? {a : α} (hx : x ∈ start) (hr : u.Reaches x t)
    (ht : test n t = some (some a))
    (hanswers : ∀ t ∈ start, ∀ s, u.Reaches t s → ∃ n a, test n s = some a) :
    ∃ n a, u.firstUpward? n (test n) start = some (some a) :=
  (Visited.initial hanswers).finds hmono (.inr hx) hr ht

end

/-! ## Pairs of types -/

/-- The search decides `P`: its answers say whether `P` holds, and some budget gets one. -/
structure Decides (search : Nat → Option Bool) (P : Prop) : Prop where
  /-- Every answer is the right one. -/
  correct : ∀ n b, search n = some b → (b = true ↔ P)
  /-- With a large enough budget there is an answer. -/
  answers : ∃ m, ∀ n, m ≤ n → ∃ b, search n = some b

/-- With some budget the search says that `s` can be used where `t` is expected. -/
def Assignable (u : Universe) (s t : TypeExpr) : Prop := ∃ n, u.assignable? n s t = some true

/-- With some budget the search says that the value inside `s` can be used for `t`. -/
def Wrappable (u : Universe) (s t : TypeExpr) : Prop := ∃ n, u.wrappable? n s t = some true

theorem Reaches.trans (h : u.Reaches r s) (h' : u.Reaches s t) : u.Reaches r t := by
  induction h with
  | refl => exact h'
  | step hs _ ih => exact .step hs (ih h')

theorem assignable_iff : u.Assignable s t ↔ u.Reaches s t := by
  refine ⟨fun ⟨n, h⟩ => (assignable?_iff h).1 rfl, fun h => ?_⟩
  let test (_ : Nat) (r : TypeExpr) : Option (Option Unit) :=
    some (if r = t then some () else none)
  have htest : test 0 t = some (some ()) := by simp [test]
  obtain ⟨n, a, ha⟩ : ∃ n a, u.firstUpward? n (test n) [s] = some (some a) :=
    exists_firstUpward? (n := 0) (fun _ _ _ _ _ h => h) (List.mem_singleton_self s) h htest
      fun r _ s _ => ⟨0, _, rfl⟩
  exact ⟨n, Option.bind_eq_some_iff.2 ⟨some a, ha, rfl⟩⟩

theorem wrappable_iff : u.Wrappable s t ↔ u.Wraps s t := by
  unfold Wrappable Wraps wrappable?
  cases u.unwrap? s with
  | none => simp
  | some inner => simpa [Assignable] using assignable_iff (s := inner)

/-- **A question about a pair of types is decided**, if the first one reaches finitely many. -/
theorem decides_assignable? (h : {r | u.Reaches s r}.Finite) :
    Decides (u.assignable? · s t) (u.Reaches s t) where
  correct _ _ := assignable?_iff
  answers := by
    obtain ⟨m, b, hb⟩ := exists_assignable? h t
    exact ⟨m, fun n hn => ⟨b, assignable?_mono hn hb⟩⟩

theorem decides_wrappable?
    (h : ∀ inner, u.unwrap? s = some inner → {r | u.Reaches inner r}.Finite) :
    Decides (u.wrappable? · s t) (u.Wraps s t) where
  correct _ _ := wrappable?_iff
  answers := by
    obtain ⟨m, b, hb⟩ := exists_wrappable? h t
    exact ⟨m, fun n hn => ⟨b, wrappable?_mono hn hb⟩⟩

/-! ## Names -/

/-- **The names under which a declaration is found** are those of the types that its type or the
type of the wrapped value reaches. -/
theorem mem_providedNames_iff {d : Declaration} {x : Source} {name : String}
    (h : Source.ofDeclaration? u n d = some x) : name ∈ x.providedNames ↔
      ∃ t, (u.Reaches d.type t ∨ u.Wraps d.type t) ∧ t.name = name := by
  have hx := Source.listed_of h
  obtain rfl := Source.toDeclaration_of h
  simp only [Source.providedNames, Tags.mem_labels_ofList, List.mem_map, List.mem_append,
    hx.mem_ownTypes, hx.mem_innerTypes]

/-- A search that ends has listed finitely many types. -/
theorem finite_of_upward? (h : u.upward? n start = some l) (hs : s ∈ start) :
    {t | u.Reaches s t}.Finite :=
  l.finite_toSet.subset fun _ ht => (mem_upward?_iff h).2 ⟨s, hs, ht⟩

/-- **A declaration's types can be listed exactly if they are finitely many.** -/
theorem exists_ofDeclaration?_iff {d : Declaration} :
    (∃ n x, Source.ofDeclaration? u n d = some x) ↔ {t | u.Reaches d.type t}.Finite ∧
      ∀ inner, u.unwrap? d.type = some inner → {t | u.Reaches inner t}.Finite := by
  refine ⟨fun ⟨n, x, h⟩ => ?_, fun ⟨h, hi⟩ => exists_ofDeclaration? h hi⟩
  obtain ⟨-, ho, hu, hi, -⟩ := Source.ofDeclaration?_eq_some h
  refine ⟨finite_of_upward? ho (List.mem_singleton_self _), fun inner hin => ?_⟩
  exact finite_of_upward? hi (by simp [hu, hin])

/-! ## The main result -/

/-- **Assignability is reachability.** In every table, cyclic and generic ones included:

* the search for a pair of types says yes exactly if the first reaches the second, and likewise for
  the value inside a wrapper; so being assignable is reflexive and transitive;
* if the types reached are finitely many, then the search decides the question;
* a declaration is found under exactly the names of the types that its own type or the type of the
  wrapped value reaches, and they can be listed exactly if those types are finitely many. -/
theorem assignability_is_reachability (u : Universe) :
    (∀ s t, u.Assignable s t ↔ u.Reaches s t) ∧
    (∀ s t, u.Wrappable s t ↔ ∃ inner, u.unwrap? s = some inner ∧ u.Reaches inner t) ∧
    (∀ t, u.Assignable t t) ∧
    (∀ r s t, u.Assignable r s → u.Assignable s t → u.Assignable r t) ∧
    (∀ s t, {r | u.Reaches s r}.Finite → Decides (u.assignable? · s t) (u.Reaches s t)) ∧
    (∀ s t, (∀ inner, u.unwrap? s = some inner → {r | u.Reaches inner r}.Finite) →
      Decides (u.wrappable? · s t) (u.Wraps s t)) ∧
    (∀ d n x, Source.ofDeclaration? u n d = some x → ∀ name, name ∈ x.providedNames ↔
      ∃ t, (u.Reaches d.type t ∨ u.Wraps d.type t) ∧ t.name = name) ∧
    (∀ d, (∃ n x, Source.ofDeclaration? u n d = some x) ↔ {t | u.Reaches d.type t}.Finite ∧
      ∀ inner, u.unwrap? d.type = some inner → {t | u.Reaches inner t}.Finite) := by
  refine ⟨fun _ _ => assignable_iff, fun _ _ => wrappable_iff, fun t => assignable_iff.2 (.refl t),
    fun r s t hrs hst => ?_, fun _ _ => decides_assignable?, fun _ _ => decides_wrappable?,
    fun _ _ _ h _ => mem_providedNames_iff h, fun _ => exists_ofDeclaration?_iff⟩
  exact assignable_iff.2 ((assignable_iff.1 hrs).trans (assignable_iff.1 hst))

/-- Nodes and links are each other's supertypes, and a lazy value wraps what it is of. -/
def links : Universe where
  types := .ofList
    [("Node", { params := ["T"], supertypes := [.named "Link" [.named "T" []]] }),
      ("Link", { params := ["S"], supertypes := [.named "Node" [.named "S" []]] }),
      ("Lazy", { params := ["T"], wraps := some (.named "T" []) })]

/-- A link of whole numbers is a node of them, and so is the value inside a lazy link. It is no node
of texts, as the search says after going round, and it is found under two names. -/
theorem assignability_is_reachability_links :
    let int := TypeExpr.named "Int" []
    let link := TypeExpr.named "Link" [int]
    links.Assignable link (.named "Node" [int]) ∧
    links.Wrappable (.named "Lazy" [link]) (.named "Node" [int]) ∧
    (∃ m, ∀ n, m ≤ n → links.assignable? n link (.named "Node" [.named "Text" []]) = some false) ∧
    ∃ n x, Source.ofDeclaration? links n { id := 0, name := "link", type := link } = some x ∧
      ∀ name, name ∈ x.providedNames ↔ name = "Link" ∨ name = "Node" := by
  intro int link
  obtain ⟨hassignable, hwrappable, -, -, hdecides, -, hnames, hlisted⟩ :=
    assignability_is_reachability links
  have hlist : links.upward? 3 [link] = some [link, .named "Node" [int]] := by decide +kernel
  have hreach (t : TypeExpr) : links.Reaches link t ↔ t = link ∨ t = .named "Node" [int] := by
    simpa using (mem_upward?_iff (t := t) hlist).symm
  have hfin : {t | links.Reaches link t}.Finite :=
    finite_of_upward? hlist (List.mem_singleton_self link)
  have hunwrap : links.unwrap? link = none := by decide +kernel
  refine ⟨(hassignable _ _).2 ((hreach _).2 (.inr rfl)),
    (hwrappable _ _).2 ⟨link, by decide +kernel, (hreach _).2 (.inr rfl)⟩, ?_, ?_⟩
  · have hd := hdecides link (.named "Node" [.named "Text" []]) hfin
    obtain ⟨m, hm⟩ := hd.answers
    refine ⟨m, fun n hn => ?_⟩
    obtain ⟨b, hb⟩ := hm n hn
    have hnot : ¬ links.Reaches link (.named "Node" [.named "Text" []]) := by
      rw [hreach]
      decide
    rw [hb, Bool.eq_false_iff.2 fun h => hnot ((hd.correct n b hb).1 h)]
  · obtain ⟨n, x, hx⟩ := (hlisted { id := 0, name := "link", type := link }).2
      ⟨hfin, by simp [hunwrap]⟩
    refine ⟨n, x, hx, fun name => ?_⟩
    rw [hnames _ _ _ hx]
    simp only [hreach, Wraps, hunwrap, reduceCtorEq, false_and, exists_false, or_false,
      or_and_right, exists_or, exists_eq_left, eq_comm (a := name)]
    rfl

end Universe

end Wiring
