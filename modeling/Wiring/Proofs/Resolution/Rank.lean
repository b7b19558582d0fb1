import Mathlib.Data.Prod.Lex
import Wiring.Proofs.Resolution.Confinement
import Wiring.Proofs.Resolution.Demand
/-!
# What is left to do

A resolution goes on to the next claim, starts a component, comes back to a claim, breaks a cycle
and declares what it needs on the fly. Where the claims are confined to finitely many, three
numbers, compared in this order, measure what is left to do (`State.rank`).

* `State.unsupplied` counts the claims that no declaration satisfies. What is declared on the fly
  satisfies one of them.
* `State.waiting` counts the declarations that are neither finished nor in progress. What is started
  waited before, unless it closes a cycle.
* `Frame.load` is what the frames on the stack have left to do. A frame that closes a cycle makes
  the stack lighter, as it is about to answer the claim of the frame below.

`State.rank_move` says that moves lower them, or leave the stack as it is.
-/

namespace Wiring

open Resolver

/-! ## What is left to do -/

theorem countP_lt_countP {α : Type} {p q : α → Bool} {l : List α} {a : α} (ha : a ∈ l)
    (h : ∀ x ∈ l, p x = true → q x = true) (hp : p a = false) (hq : q a = true) :
    l.countP p < l.countP q := by
  obtain ⟨l₁, l₂, rfl⟩ := List.append_of_mem ha
  have h₁ : l₁.countP p ≤ l₁.countP q := List.countP_mono_left fun x hx => h x (by simp [hx])
  have h₂ : l₂.countP p ≤ l₂.countP q := List.countP_mono_left fun x hx => h x (by simp [hx])
  simp only [List.countP_append, List.countP_cons, hp, hq]
  simp only [if_true, Bool.false_eq_true, if_false]
  omega

/-- What the frames of a stack have left to do. A component that is in progress below as well is
about to be replaced by an edge of the frame below, which then has less to do. -/
def Frame.load : List Frame → Nat
  | [] => 0
  | .root _ :: below => load below + 1
  | .component f :: below =>
    if f.source.id ∈ ids below then load below - 1 else load below + (2 * f.pending.length + 1)

theorem Frame.load_root (d : Source) (below : List Frame) :
    load (.root d :: below) = load below + 1 := rfl

theorem Frame.load_of_mem {f : ComponentFrame} {below : List Frame} (h : f.source.id ∈ ids below) :
    load (.component f :: below) = load below - 1 := if_pos h

theorem Frame.load_of_not_mem {f : ComponentFrame} {below : List Frame}
    (h : f.source.id ∉ ids below) :
    load (.component f :: below) = load below + (2 * f.pending.length + 1) := if_neg h

/-- A claim that is answered makes a stack lighter by two. -/
theorem Frame.load_answer {f : ComponentFrame} {below : List Frame} {c : Claim} {cs : List Claim}
    (h : f.source.id ∉ ids below) (hf : f.pending = c :: cs) (e : Edge) :
    load (.component f :: below) = load (.component (f.answer e) :: below) + 2 := by
  rw [load_of_not_mem h, load_of_not_mem (f := f.answer e) h]
  simp only [ComponentFrame.answer, hf, List.tail_cons, List.length_cons]
  omega

/-- A declaration is listed as a source once it is declared, unless it is a template. -/
theorem Catalog.Added.mem_sources_of {u : Universe} {c c' : Catalog} {d : Draft} {x : Source}
    (h : c.Added u d c') (ht : d.isTemplate = false) (hl : x.Listed u)
    (e : x.toDeclaration = c.declare d) : x ∈ c'.sources := by
  cases h with
  | template h' =>
    rw [Catalog.declare, Draft.isTemplate_declare, ht] at h'
    cases h'
  | @source y _ hy e' =>
    rw [hl.ext hy (e.trans e'.symm)]
    simp [addSource]

namespace State

variable {u : Universe} {r : Resolver} {K : List Claim} {s t : State} {d x : Source} {c : Claim}
  {draft : Draft} {catalog : Catalog}

/-- The number of claims that no declaration satisfies. -/
def unsupplied (K : List Claim) (s : State) : Nat :=
  K.countP fun c => (s.declaredMatches c).isEmpty

/-- Whether the declaration is neither finished nor in progress. -/
def waits (s : State) (d : Source) : Bool := !s.isResolved d.id && !s.isInProgress d.id

/-- The number of sources that are neither finished nor in progress. -/
def waiting (s : State) : Nat := s.catalog.sources.countP s.waits

/-- What is left to do. -/
def rank (K : List Claim) (s : State) : ℕ ×ₗ ℕ ×ₗ ℕ :=
  toLex (s.unsupplied K, toLex (s.waiting, Frame.load s.stack))

theorem waits_iff : s.waits d = true ↔ s.isResolved d.id = false ∧ d.id ∉ Frame.ids s.stack := by
  rw [← isInProgress_iff]
  simp [waits]

theorem rank_lt_of_unsupplied (h : t.unsupplied K < s.unsupplied K) : t.rank K < s.rank K :=
  Prod.Lex.toLex_lt_toLex.2 (.inl h)

theorem rank_lt_of_waiting (hu : t.unsupplied K ≤ s.unsupplied K) (h : t.waiting < s.waiting) :
    t.rank K < s.rank K := by
  simp only [rank, Prod.Lex.toLex_lt_toLex]
  omega

theorem rank_lt_of_load (hu : t.unsupplied K ≤ s.unsupplied K) (hw : t.waiting ≤ s.waiting)
    (h : Frame.load t.stack < Frame.load s.stack) : t.rank K < s.rank K := by
  simp only [rank, Prod.Lex.toLex_lt_toLex]
  omega

theorem rank_le_of_stack (hu : t.unsupplied K ≤ s.unsupplied K) (hw : t.waiting ≤ s.waiting)
    (h : t.stack = s.stack) : t.rank K ≤ s.rank K := by
  simp only [rank, Prod.Lex.toLex_le_toLex, h]
  omega

/-- Claims that are satisfied stay so. -/
theorem declaredMatches_eq_nil (hg : s.Grows t) (ht : t.catalog.Sound u)
    (h : t.declaredMatches c = []) : s.declaredMatches c = [] := by
  rw [List.eq_nil_iff_forall_not_mem] at h ⊢
  intro d hd
  obtain ⟨hd, hp, hf⟩ := mem_sources_of_mem_declaredMatches hd
  exact h d ((mem_declaredMatches ht).2 ⟨hg.catalog.sources.mem hd, hp, hf⟩)

theorem unsupplied_le (hg : s.Grows t) (ht : t.catalog.Sound u) :
    t.unsupplied K ≤ s.unsupplied K := by
  refine List.countP_mono_left fun c _ h => ?_
  rw [List.isEmpty_iff] at h ⊢
  exact declaredMatches_eq_nil hg ht h

/-- One more of the claims is satisfied. -/
theorem unsupplied_lt (hg : s.Grows t) (ht : t.catalog.Sound u) (hc : c ∈ K)
    (hn : s.declaredMatches c = []) (hd : d ∈ t.declaredMatches c) :
    t.unsupplied K < s.unsupplied K := by
  refine countP_lt_countP hc (fun c _ h => ?_) (by simpa using List.ne_nil_of_mem hd) (by simp [hn])
  rw [List.isEmpty_iff] at h ⊢
  exact declaredMatches_eq_nil hg ht h

/-- If nothing waits that did not wait before, then no more declarations wait. -/
theorem waiting_le (hc : t.catalog.sources = s.catalog.sources)
    (h : ∀ d ∈ s.catalog.sources, t.waits d = true → s.waits d = true) : t.waiting ≤ s.waiting := by
  unfold waiting
  rw [hc]
  exact List.countP_mono_left h

/-- If nothing is in progress no more, then no more declarations wait. -/
theorem waiting_le_of_ids (hc : t.catalog.sources = s.catalog.sources)
    (hr : t.resolved = s.resolved) (h : ∀ i ∈ Frame.ids s.stack, i ∈ Frame.ids t.stack) :
    t.waiting ≤ s.waiting := by
  refine waiting_le hc fun d _ hd => ?_
  obtain ⟨hd, hn⟩ := waits_iff.1 hd
  refine waits_iff.2 ⟨?_, fun hs => hn (h _ hs)⟩
  rwa [isResolved, position?, hr] at hd

/-- What is started waits no more. -/
theorem waiting_push_lt (hx : x = d ∨ x ∈ s.wrapping d) (hm : x ∈ s.catalog.sources)
    (hw : s.waits x = true) : (s.push d).waiting < s.waiting := by
  refine countP_lt_countP hm (fun y _ hy => ?_) ?_ hw
  · obtain ⟨hr, hy⟩ := waits_iff.1 hy
    exact waits_iff.2 ⟨hr, fun hs => hy (mem_ids_push d hs)⟩
  · rw [← Bool.not_eq_true, waits_iff, ids_push]
    rcases hx with rfl | hx
    · simp
    · exact fun h => h.2 (List.mem_append_left _ (List.mem_reverse.2 (List.mem_map_of_mem hx)))

/-! ## Moves leave less to do -/

/-- A root that is started waits no more. -/
theorem waiting_expand_lt {below : List Frame} (hi : s.Identified u)
    (hs : s.stack = .root d :: below) (hd : s.isResolved d.id = false) :
    ({ s with stack := below }.push d).waiting < s.waiting := by
  cases hi.top hs with
  | root hm hb =>
    have hids : Frame.ids s.stack = Frame.ids below := by rw [hs, Frame.ids_root]
    have hw : ({ s with stack := below } : State).waits d = true :=
      waits_iff.2 ⟨hd, by simp [hb]⟩
    refine (waiting_push_lt (s := { s with stack := below }) (.inl rfl) hm hw).trans_le ?_
    exact waiting_le_of_ids (s := s) (t := { s with stack := below }) rfl rfl fun i hi => hids ▸ hi

/-- A proxy does not wait. -/
theorem waiting_forwarded_le {n : Nat} {proxy : Source} {claimed : TypeExpr}
    (hr : s.catalog.registerSource? r.types n (r.proxyDraft d claimed) = some (proxy, catalog)) :
    (s.forwarded catalog proxy d claimed).waiting ≤ s.waiting := by
  obtain ⟨-, e, ha⟩ := Catalog.added_of_registerSource? hr
  have hg : s.Grows (s.forwarded catalog proxy d claimed) := grows_forwarded ha
  have hold (y : Source) (hy : (s.forwarded catalog proxy d claimed).waits y = true) :
      s.waits y = true := by
    obtain ⟨hy, hn⟩ := waits_iff.1 hy
    refine waits_iff.2 ⟨eq_false_of_ne_true fun h => ?_, hn⟩
    simp [hg.isResolved h] at hy
  cases ha with
  | template ht => exact List.countP_mono_left fun y _ => hold y
  | @source y ht hl e' =>
    -- The proxy is finished at once.
    have hy : (s.forwarded (s.catalog.addSource y) proxy d claimed).waits y = false := by
      have hres : (s.forwarded (s.catalog.addSource y) proxy d claimed).isResolved y.id = true :=
        isResolved_iff.2 ⟨_, List.mem_concat_self, congrArg Declaration.id (e.trans e'.symm)⟩
      simp [waits, hres]
    have hc : (s.forwarded (s.catalog.addSource y) proxy d claimed).catalog.sources =
      s.catalog.sources ++ [y] := rfl
    rw [waiting, hc, List.countP_append, List.countP_singleton, hy]
    exact List.countP_mono_left fun z _ => hold z

/-- A component that is finished does not wait, and neither does what is below it. -/
theorem waits_commit {f : ComponentFrame} {below : List Frame}
    (hs : s.stack = .component f :: below)
    (h : ({ s with stack := below }.commit f.source f.edges).waits d = true) :
    s.waits d = true := by
  obtain ⟨hr, hn⟩ := waits_iff.1 h
  rw [isResolved_eq_false] at hr
  refine waits_iff.2 ⟨isResolved_eq_false.2 fun n hm => hr n (List.mem_append_left _ hm), ?_⟩
  rw [hs, Frame.ids_component, List.mem_cons, not_or]
  exact ⟨fun e => hr _ List.mem_concat_self e.symm, hn⟩

/-- A declaration that is awaited waits no more. If it was in progress before, then the stack is
lighter, unless an interceptor waits no more. -/
theorem rank_await_lt {f : ComponentFrame} {below : List Frame} (hi : s.Identified u)
    (hu : (s.push d).unsupplied K ≤ s.unsupplied K) (hs : s.stack = .component f :: below)
    (hb : ¬ Frame.ClosesCycle f.source.id below) (hd : Awaits s c d) :
    (s.push d).rank K < s.rank K := by
  obtain ⟨hm, -, -⟩ := mem_sources_of_mem_declaredMatches hd.declared
  by_cases hp : d.id ∈ Frame.ids s.stack
  · cases hw : s.wrapping d with
    | cons x xs =>
      have hx : x ∈ s.wrapping d := by simp [hw]
      obtain ⟨hx', -, hr, hn⟩ := mem_wrapping hx
      exact rank_lt_of_waiting hu (waiting_push_lt (.inr hx) hx' (waits_iff.2 ⟨hr, hn⟩))
    | nil =>
      have hstack : (s.push d).stack = .component (.start d) :: s.stack := by
        rw [stack_push, hw]
        rfl
      refine rank_lt_of_load hu (waiting_le_of_ids rfl rfl fun i hi => mem_ids_push d hi) ?_
      have hl := Frame.load_of_not_mem ((hi.top hs).not_mem hb)
      rw [hstack, Frame.load_of_mem hp, hs]
      omega
  · exact rank_lt_of_waiting hu (waiting_push_lt (.inl rfl) hm (waits_iff.2 ⟨hd.unresolved, hp⟩))

/-- What is declared on the fly satisfies a claim that nothing satisfied. -/
theorem rank_supply_lt {n : Nat} (ht : draft.isTemplate = false) (hc : c ∈ K)
    (hg : s.Grows ({ s with catalog }.push d))
    (hi : ({ s with catalog }.push d).Identified r.types) (hn : s.declaredMatches c = [])
    (hd : Supplies r s c draft)
    (hr : s.catalog.registerSource? r.types n draft = some (d, catalog)) :
    ({ s with catalog }.push d).rank K < s.rank K := by
  obtain ⟨hl, e, ha⟩ := Catalog.added_of_registerSource? hr
  have hm : d ∈ catalog.sources := ha.mem_sources_of ht hl e
  have hp : d.isProxy = false :=
    (congrArg (fun x => x.toDraft.isProxy) e).trans hd.isProxy
  have hf : d.Fits c := by
    rw [hl.fits_iff, e]
    exact hd.satisfies _
  exact rank_lt_of_unsupplied
    (unsupplied_lt hg hi.sound hc hn ((mem_declaredMatches hi.sound).2 ⟨hm, hp, hf⟩))

/-- **A move leaves less to do**, or it leaves the stack as it is and what is left to do no more. -/
theorem rank_move (h : s.Pending (· ∈ K))
    (ht : ∀ c ∈ K, ∀ draft, Supplies r s c draft → draft.isTemplate = false)
    (hx : r.extensions = []) (hi : s.Identified r.types)
    (hp : Frame.Each Frame.Passing s.stack) (hm : r.Move s t) :
    t.rank K < s.rank K ∨ t.stack = s.stack ∧ t.rank K ≤ s.rank K := by
  have hj : t.Identified r.types := hi.move hm
  have hg := hm.grows
  have hu : t.unsupplied K ≤ s.unsupplied K := unsupplied_le hg hj.sound
  cases hm with
  | skip hs hd =>
    refine .inl (rank_lt_of_load hu (waiting_le_of_ids rfl rfl fun i hi => ?_) ?_)
    · rwa [hs, Frame.ids_root] at hi
    · rw [hs, Frame.load_root]
      exact Nat.lt_succ_self _
  | expand hs hd => exact .inl (rank_lt_of_waiting hu (waiting_expand_lt hi hs hd))
  | forward hs hw hf hk hsub hl hr =>
    exact .inr ⟨rfl, rank_le_of_stack hu (waiting_forwarded_le hr) rfl⟩
  | @bypass f w below c cs i hs hw hf hk hsub hl =>
    have hw' : w.source.id ∉ Frame.ids below := by
      rw [hs] at hp
      exact (hp.1 hf).2 w below rfl
    refine .inl (rank_lt_of_load hu (waiting_le_of_ids rfl rfl fun i hi => ?_) ?_)
    · rw [hs, Frame.ids_component, List.mem_cons] at hi
      exact hi.elim (fun e => e ▸ hf) id
    · have hload := Frame.load_answer hw' hw (.single c ⟨i, false⟩)
      rw [hs, Frame.load_of_mem hf]
      dsimp only
      omega
  | @commit f below hs hb hf =>
    refine .inl (rank_lt_of_load hu (waiting_le rfl fun y _ hy => waits_commit hs hy) ?_)
    have hload := Frame.load_of_not_mem ((hi.top hs).not_mem hb)
    rw [hs, hload]
    exact Nat.lt_add_of_pos_right (Nat.succ_pos _)
  | @answer f below c cs e hs hb hf he =>
    refine .inl (rank_lt_of_load hu (waiting_le_of_ids rfl rfl fun i hi => ?_) ?_)
    · rwa [hs] at hi
    · have hload := Frame.load_answer ((hi.top hs).not_mem hb) hf e
      rw [hs]
      dsimp only
      omega
  | await hs hb hf hd => exact .inl (rank_await_lt hi hu hs hb hd)
  | @supply f below c cs n draft d catalog hs hb hf hn hd hr hk =>
    have hc := h f (by simp [hs]) c (by simp [hf])
    exact .inl (rank_supply_lt (ht c hc draft hd) hc hg hj hn hd hr)
  | extend hr he => exact absurd hx he
  | nest depth => exact .inr ⟨rfl, rank_le_of_stack hu (waiting_le rfl fun y _ hy => hy) rfl⟩

end State

end Wiring
