import Mathlib.Data.List.Sort
import Wiring.Proofs.Plan.Cycles
import Wiring.Proofs.Plan.Order
/-!
# Queries answer exactly

The queries of a plan's graph follow its links. What `PlanGraph.topologicalOrder` lists was finished
in this order: a node is finished after all that its links lead to (`PlanGraph.Finishing`), which
takes a graph without cycles. `PlanGraph.transitiveDeps` searches level by level, and visits no node
twice (`PlanGraph.mem_reachable_iff`).

`graph_queries_are_exact` says what all this means for a plan whose components stand at their
indices. Both searches are total: each turn takes a node from those that are unvisited, or one from
the stack or the queue.
-/

namespace Wiring

open Relation (TransGen)

namespace PlanGraph

variable {g : PlanGraph} {unvisited unseen finished stack roots queue : List Nat} {v w x y : Nat}

/-- A link leads to one of the nodes that are still unseen. -/
def Leads (g : PlanGraph) (unseen : List Nat) (v w : Nat) : Prop := g.Joins v w ∧ w ∈ unseen

theorem mem_filter_targets :
    x ∈ ((g.linksFrom v).map Link.target).filter (· ∈ unseen) ↔ g.Leads unseen v x := by
  rw [List.mem_filter, decide_eq_true_eq, List.mem_map]
  refine and_congr_left fun _ => ⟨?_, Joins.exists_link⟩
  rintro ⟨l, hl, rfl⟩
  exact joins_of_mem_linksFrom hl

/-! ## Finishing -/

/-- What the links of each node lead to is listed before it. -/
def Settled (g : PlanGraph) (finished : List Nat) : Prop :=
  ∀ before x after, finished = before ++ x :: after → ∀ y, g.Joins x y → y ∈ before

/-- A node may be listed after all that its links lead to. -/
theorem Settled.concat (h : g.Settled finished) (hv : ∀ y, g.Joins v y → y ∈ finished) :
    g.Settled (finished ++ [v]) := by
  intro before x after e y hy
  rcases List.eq_nil_or_concat after with rfl | ⟨after, z, rfl⟩
  · obtain ⟨rfl, e⟩ := List.append_inj' e rfl
    obtain rfl : v = x := by simpa using e
    exact hv y hy
  · rw [List.concat_eq_append, ← List.cons_append, ← List.append_assoc] at e
    obtain ⟨rfl, -⟩ := List.append_inj' e rfl
    exact h before x after rfl y hy

/-- What is finished, and what is on the stack: nodes to be entered, and nodes that were entered and
are finished after all that is above them. -/
structure Finishing (g : PlanGraph) (unvisited finished stack : List Nat) : Prop where
  /-- Each node is to be entered once, -/
  unique : unvisited.Nodup
  /-- and finished once. -/
  nodup : finished.Nodup
  /-- What is finished was entered. -/
  visited : ∀ x ∈ finished, x ∉ unvisited
  /-- Only nodes are on the stack, -/
  inRange : ∀ x ∈ stack, x < g.size
  /-- and only nodes are finished. -/
  finishes : ∀ x ∈ finished, x < g.size
  /-- What was entered is finished, or will be. -/
  kept : ∀ x < g.size, x ∉ unvisited → x ∈ finished ∨ x ∈ stack
  /-- What the links of a finished node lead to was finished before. -/
  settled : g.Settled finished
  /-- Of a node that was entered and is not finished, all links lead to what is finished or above
  it, and only what they lead to, maybe through others, is above it. -/
  waiting : ∀ above w below, stack = above ++ w :: below → w ∉ unvisited → w ∉ finished →
    w ∉ above → (∀ y, g.Joins w y → y ∈ finished ∨ y ∈ above) ∧ ∀ x ∈ above, TransGen g.Joins w x

/-- In the beginning nothing is entered. -/
theorem finishing_range (g : PlanGraph) : g.Finishing (List.range g.size) [] [] where
  unique := List.nodup_range
  nodup := .nil
  visited := by simp
  inRange := by simp
  finishes := by simp
  kept x hx hm := absurd (List.mem_range.2 hx) hm
  settled := by simp [Settled]
  waiting := by simp

/-- A root is put on the empty stack. -/
theorem Finishing.start (h : g.Finishing unvisited finished []) (hv : v ∈ unvisited)
    (hlt : v < g.size) : g.Finishing unvisited finished [v] where
  unique := h.unique
  nodup := h.nodup
  visited := h.visited
  inRange := List.forall_mem_singleton.2 hlt
  finishes := h.finishes
  kept x hx hm := .inl ((h.kept x hx hm).resolve_right List.not_mem_nil)
  settled := h.settled
  waiting above w below e hw := by
    have hmem : w ∈ [v] := e ▸ List.mem_append_right above List.mem_cons_self
    rw [List.mem_singleton.1 hmem] at hw
    exact absurd hv hw

/-- Without cycles, a link of a node that is entered does not lead to one that waits. -/
theorem Finishing.mem_finished (h : g.Finishing unvisited finished (v :: stack)) (hg : g.Regular)
    (ha : ∀ x, ¬ TransGen g.Joins x x) (hv : v ∈ unvisited) (hvy : g.Joins v y)
    (hy : y ∉ unvisited) : y ∈ finished := by
  by_contra hf
  have hm : y ∈ v :: stack := (h.kept y (hvy.lt hg).2 hy).resolve_left hf
  obtain ⟨above, below, e, hn⟩ := List.eq_append_cons_of_mem hm
  cases above with
  | nil =>
    obtain ⟨rfl, -⟩ := List.cons.inj e
    exact hy hv
  | cons a above =>
    obtain ⟨rfl, -⟩ := List.cons.inj e
    obtain ⟨-, hreach⟩ := h.waiting (v :: above) y below e hy hf hn
    exact ha y ((hreach v List.mem_cons_self).tail hvy)

/-- What stands on a stack below what was put above `v` is `v` or stands below it. -/
theorem cases_of_split {new above below : List Nat} (e : new ++ v :: stack = above ++ w :: below)
    (hw : w ∉ new) :
    (w = v ∧ above = new) ∨ ∃ rest, above = new ++ v :: rest ∧ stack = rest ++ w :: below := by
  rcases List.append_eq_append_iff.1 e with ⟨rest, rfl, e'⟩ | ⟨rest, rfl, e'⟩
  · cases rest with
    | nil =>
      obtain ⟨rfl, -⟩ := List.cons.inj e'
      exact .inl ⟨rfl, List.append_nil new⟩
    | cons a rest =>
      obtain ⟨rfl, hrest⟩ := List.cons.inj e'
      exact .inr ⟨rest, rfl, hrest⟩
  · cases rest with
    | nil =>
      obtain ⟨rfl, -⟩ := List.cons.inj e'
      exact .inl ⟨rfl, (List.append_nil above).symm⟩
    | cons a rest =>
      obtain ⟨rfl, -⟩ := List.cons.inj e'
      exact absurd (List.mem_append_right above List.mem_cons_self) hw

/-- **A node is entered**: what its links lead to is put above it, unless it was entered before. -/
theorem Finishing.enter (h : g.Finishing unvisited finished (v :: stack)) (hg : g.Regular)
    (ha : ∀ x, ¬ TransGen g.Joins x x) (hv : v ∈ unvisited) :
    g.Finishing (unvisited.erase v) finished
      (((g.linksFrom v).map Link.target).filter (· ∈ unvisited.erase v) ++ v :: stack) := by
  set new := ((g.linksFrom v).map Link.target).filter (· ∈ unvisited.erase v)
  have hleads : ∀ x ∈ new, g.Leads (unvisited.erase v) v x := fun x => mem_filter_targets.1
  have hentered : ∀ w, w ∉ unvisited.erase v → w ≠ v → w ∉ unvisited := fun w hw hne hm =>
    hw (h.unique.mem_erase_iff.2 ⟨hne, hm⟩)
  refine ⟨h.unique.erase v, h.nodup, fun x hx hm => h.visited x hx (List.mem_of_mem_erase hm), ?_,
    h.finishes, fun x hx hm => ?_, h.settled, fun above w below e hw hf hn => ?_⟩
  · intro x hx
    rcases List.mem_append.1 hx with hx | hx
    · exact ((hleads x hx).1.lt hg).2
    · exact h.inRange x hx
  · by_cases hxv : x = v
    · exact .inr (List.mem_append_right new (hxv ▸ List.mem_cons_self))
    · exact (h.kept x hx (hentered x hm hxv)).imp_right (List.mem_append_right new)
  · rcases cases_of_split e (fun hm => hw (hleads w hm).2) with ⟨rfl, rfl⟩ | ⟨rest, rfl, rfl⟩
    · -- The node itself: its links lead to what was just put above it, or was finished before.
      refine ⟨fun y hy => ?_, fun x hx => .single (hleads x hx).1⟩
      by_cases hm : y ∈ unvisited.erase w
      · exact .inr (mem_filter_targets.2 ⟨hy, hm⟩)
      · have hne : y ≠ w := fun e => ha w (.single (e ▸ hy))
        exact .inl (h.mem_finished hg ha hv hy (hentered y hm hne))
    · -- A node below: what it leads to stayed where it was, and it leads to what is new.
      have hne : w ≠ v := fun e => hn (by simp [e])
      have hn' : w ∉ v :: rest := fun hm => hn (List.mem_append_right new hm)
      obtain ⟨hnext, hreach⟩ := h.waiting (v :: rest) w below rfl (hentered w hw hne) hf hn'
      refine ⟨fun y hy => (hnext y hy).imp_right (List.mem_append_right new), fun x hx => ?_⟩
      rcases List.mem_append.1 hx with hx | hx
      · exact (hreach v List.mem_cons_self).tail (hleads x hx).1
      · exact hreach x hx

/-- What is on top of the stack is finished. -/
theorem Finishing.tail {finished' : List Nat} (h : g.Finishing unvisited finished (v :: stack))
    (hu : v ∉ unvisited) (hn : finished'.Nodup) (hv : v ∈ finished')
    (hm : ∀ x, x ∈ finished' ↔ x ∈ finished ∨ x = v)
    (hs : g.Settled finished') : g.Finishing unvisited finished' stack where
  unique := h.unique
  nodup := hn
  visited x hx := by
    rcases (hm x).1 hx with hx | rfl
    · exact h.visited x hx
    · exact hu
  inRange x hx := h.inRange x (List.mem_cons_of_mem v hx)
  finishes x hx := by
    rcases (hm x).1 hx with hx | rfl
    · exact h.finishes x hx
    · exact h.inRange x List.mem_cons_self
  kept x hx hm' := by
    rcases h.kept x hx hm' with hf | hx
    · exact .inl ((hm x).2 (.inl hf))
    · rcases List.mem_cons.1 hx with rfl | hx
      · exact .inl hv
      · exact .inr hx
  settled := hs
  waiting above w below e hw hf hn := by
    have hf' : w ∉ finished := fun hx => hf ((hm w).2 (.inl hx))
    have hn' : w ∉ v :: above := by
      rw [List.mem_cons]
      rintro (rfl | hx)
      · exact hf hv
      · exact hn hx
    obtain ⟨hnext, hreach⟩ := h.waiting (v :: above) w below (by rw [e]; rfl) hw hf' hn'
    refine ⟨fun y hy => ?_, fun x hx => hreach x (List.mem_cons_of_mem v hx)⟩
    rcases hnext y hy with hy | hy
    · exact .inl ((hm y).2 (.inl hy))
    · rcases List.mem_cons.1 hy with rfl | hy
      · exact .inl hv
      · exact .inr hy

/-- A node that was finished already is passed over. -/
theorem Finishing.skip (h : g.Finishing unvisited finished (v :: stack)) (hu : v ∉ unvisited)
    (hv : v ∈ finished) : g.Finishing unvisited finished stack :=
  h.tail hu h.nodup hv (fun _ => ⟨.inl, fun hx => hx.elim id fun e => e ▸ hv⟩) h.settled

/-- **A node is finished** after all that its links lead to. -/
theorem Finishing.finish (h : g.Finishing unvisited finished (v :: stack)) (hu : v ∉ unvisited)
    (hv : v ∉ finished) : g.Finishing unvisited (finished ++ [v]) stack := by
  obtain ⟨hnext, -⟩ := h.waiting [] v stack rfl hu hv List.not_mem_nil
  have hbefore : ∀ y, g.Joins v y → y ∈ finished := fun y hy =>
    (hnext y hy).resolve_right List.not_mem_nil
  have hn : (finished ++ [v]).Nodup := by
    refine List.nodup_append.2 ⟨h.nodup, List.pairwise_singleton _ v, ?_⟩
    rintro x hx y hy rfl
    exact hv (List.mem_singleton.1 hy ▸ hx)
  exact h.tail hu hn List.mem_concat_self (fun x => by simp) (h.settled.concat hbefore)

/-- What stays unvisited is not what was entered before. -/
theorem not_mem_cons {rest : List Nat} (hv : v ∉ unvisited)
    (h : ∀ x ∈ rest, x ∈ unvisited ∧ x ∉ stack) : ∀ x ∈ rest, x ∈ unvisited ∧ x ∉ v :: stack := by
  intro x hx
  obtain ⟨hm, hn⟩ := h x hx
  exact ⟨hm, List.not_mem_cons_of_ne_of_not_mem (fun e => hv (e ▸ hm)) hn⟩

/-- **The whole stack is finished.** -/
theorem finish_spec (hg : g.Regular) (ha : ∀ x, ¬ TransGen g.Joins x x)
    (h : g.Finishing unvisited finished stack) :
    g.Finishing (g.finish unvisited finished stack).1 (g.finish unvisited finished stack).2 [] ∧
      (∀ x ∈ (g.finish unvisited finished stack).1, x ∈ unvisited ∧ x ∉ stack) := by
  fun_induction PlanGraph.finish g unvisited finished stack with
  | case1 unvisited finished => exact ⟨h, fun x hx => ⟨hx, List.not_mem_nil⟩⟩
  | case2 unvisited finished v stack hv rest ih =>
    obtain ⟨hfinal, hsub⟩ := ih (h.enter hg ha hv)
    refine ⟨hfinal, fun x hx => ?_⟩
    obtain ⟨hm, hn⟩ := hsub x hx
    exact ⟨List.mem_of_mem_erase hm, fun hs => hn (List.mem_append_right _ hs)⟩
  | case3 unvisited finished v stack hu hv ih =>
    obtain ⟨hfinal, hsub⟩ := ih (h.skip hu hv)
    exact ⟨hfinal, not_mem_cons hu hsub⟩
  | case4 unvisited finished v stack hu hv ih =>
    obtain ⟨hfinal, hsub⟩ := ih (h.finish hu hv)
    exact ⟨hfinal, not_mem_cons hu hsub⟩

/-- **All roots are finished**, each unless it was. -/
theorem foldl_finish_spec (hg : g.Regular) (ha : ∀ x, ¬ TransGen g.Joins x x)
    (hr : ∀ v ∈ roots, v < g.size) (h : g.Finishing unvisited finished []) :
    ∃ unvisited' finished',
      roots.foldl (fun (unvisited, finished) v =>
        if v ∈ unvisited then g.finish unvisited finished [v] else (unvisited, finished))
        (unvisited, finished) = (unvisited', finished') ∧
      g.Finishing unvisited' finished' [] ∧ ∀ x ∈ unvisited', x ∈ unvisited ∧ x ∉ roots := by
  induction roots generalizing unvisited finished with
  | nil => exact ⟨unvisited, finished, rfl, h, fun x hx => ⟨hx, List.not_mem_nil⟩⟩
  | cons v roots ih =>
    obtain ⟨hv, hr⟩ := List.forall_mem_cons.1 hr
    rw [List.foldl_cons]
    by_cases hm : v ∈ unvisited
    · obtain ⟨hstep, hsub⟩ := finish_spec hg ha (h.start hm hv)
      obtain ⟨unvisited', finished', e, hfinal, hsub'⟩ := ih hr hstep
      refine ⟨unvisited', finished', ?_, hfinal, fun x hx => ?_⟩
      · rw [← e]
        simp only [if_pos hm]
      · obtain ⟨hx, hroots⟩ := hsub' x hx
        obtain ⟨hx, hne⟩ := hsub x hx
        exact ⟨hx, by simpa using ⟨by simpa using hne, hroots⟩⟩
    · obtain ⟨unvisited', finished', e, hfinal, hsub'⟩ := ih hr h
      refine ⟨unvisited', finished', ?_, hfinal, not_mem_cons hm hsub'⟩
      rw [← e]
      simp only [if_neg hm]

/-- **Without cycles, each node is finished once**, after all that its links lead to. -/
theorem Regular.finishOrder_spec (hg : g.Regular) (ha : ∀ x, ¬ TransGen g.Joins x x) :
    g.finishOrder.Perm (List.range g.size) ∧ g.Settled g.finishOrder := by
  obtain ⟨unvisited, finished, e, h, hsub⟩ := foldl_finish_spec hg ha
    (fun v hv => List.mem_range.1 hv) (finishing_range g)
  have horder : g.finishOrder = finished := congrArg Prod.snd e
  rw [horder]
  refine ⟨(List.perm_ext_iff_of_nodup h.nodup List.nodup_range).2 fun x => ?_, h.settled⟩
  rw [List.mem_range]
  refine ⟨h.finishes x, fun hx => ?_⟩
  have hm : x ∉ unvisited := fun hm => (hsub x hm).2 (List.mem_range.2 hx)
  exact (h.kept x hx hm).resolve_right List.not_mem_nil

/-- There is an order exactly if there is no cycle, and then it is that in which nodes are
finished. -/
theorem Regular.topologicalOrder_eq_ok_iff (hg : g.Regular) {order : List Nat} :
    g.topologicalOrder = .ok order ↔ (∀ v, ¬ TransGen g.Joins v v) ∧ order = g.finishOrder := by
  have hid : g.finishOrder.map g.weight = g.finishOrder := by
    rw [List.map_congr_left fun v _ => hg.weight v, List.map_id']
  rw [← hg.detectCycles_eq_ok_iff, topologicalOrder, hid]
  cases g.detectCycles with
  | ok x => simp [bind, Except.bind, pure, Except.pure, eq_comm]
  | error e => simp [bind, Except.bind]

/-! ## Neighbours -/

theorem Regular.mem_directDeps (hg : g.Regular) : w ∈ g.directDeps v ↔ g.Joins v w := by
  unfold directDeps
  simp only [hg.weight]
  rw [List.mem_map]
  constructor
  · rintro ⟨l, hl, rfl⟩
    exact joins_of_mem_linksFrom hl
  · exact Joins.exists_link

theorem Regular.mem_dependents (hg : g.Regular) : v ∈ g.dependents w ↔ g.Joins v w := by
  unfold dependents Joins
  simp only [hg.weight]
  rw [List.mem_mergeSort, List.mem_map]
  refine exists_congr fun l => ?_
  rw [List.mem_filter, beq_iff_eq, and_assoc, and_comm (a := l.target = w)]

/-! ## What is reached -/

theorem Regular.mem_unseenDeps (hg : g.Regular) :
    x ∈ g.unseenDeps unseen v ↔ g.Leads unseen v x := by
  simp [unseenDeps, Leads, hg.mem_directDeps]

theorem mem_removeAll {found : List Nat} : x ∈ unseen.removeAll found ↔ x ∈ unseen ∧ x ∉ found := by
  simp [List.removeAll]

theorem Leads.of_removeAll {found : List Nat} (h : g.Leads (unseen.removeAll found) v w) :
    g.Leads unseen v w := ⟨h.1, (mem_removeAll.1 h.2).1⟩

/-- A way through unseen nodes goes through what is found, or avoids it. -/
theorem cases_of_transGen (found : List Nat) (h : TransGen (g.Leads unseen) v x) :
    x ∈ found ∨ (∃ w ∈ found, TransGen (g.Leads (unseen.removeAll found)) w x) ∨
      TransGen (g.Leads (unseen.removeAll found)) v x := by
  induction h with
  | @single x hvx =>
    by_cases hx : x ∈ found
    · exact .inl hx
    · exact .inr (.inr (.single ⟨hvx.1, mem_removeAll.2 ⟨hvx.2, hx⟩⟩))
  | @tail y x _ hyx ih =>
    by_cases hx : x ∈ found
    · exact .inl hx
    · have hstep : g.Leads (unseen.removeAll found) y x := ⟨hyx.1, mem_removeAll.2 ⟨hyx.2, hx⟩⟩
      rcases ih with hy | ⟨w, hw, hwy⟩ | hvy
      · exact .inr (.inl ⟨y, hy, .single hstep⟩)
      · exact .inr (.inl ⟨w, hw, hwy.tail hstep⟩)
      · exact .inr (.inr (hvy.tail hstep))

/-- **The search finds what the queue leads to** through unseen nodes. -/
theorem Regular.mem_reachable_iff (hg : g.Regular) :
    x ∈ g.reachable unseen queue ↔ ∃ v ∈ queue, TransGen (g.Leads unseen) v x := by
  fun_induction PlanGraph.reachable g unseen queue with
  | case1 unseen => simp
  | case2 unseen v queue ih =>
    rw [List.mem_append, ih]
    constructor
    · rintro (hx | ⟨w, hw, hwx⟩)
      · exact ⟨v, List.mem_cons_self, .single (hg.mem_unseenDeps.1 hx)⟩
      · have hwx : TransGen (g.Leads unseen) w x :=
          TransGen.mono (fun _ _ => Leads.of_removeAll) w x hwx
        rcases List.mem_append.1 hw with hw | hw
        · exact ⟨w, List.mem_cons_of_mem v hw, hwx⟩
        · exact ⟨v, List.mem_cons_self, .head (hg.mem_unseenDeps.1 hw) hwx⟩
    · rintro ⟨w, hw, hwx⟩
      rcases cases_of_transGen (g.unseenDeps unseen v) hwx with hx | ⟨y, hy, hyx⟩ | hwx
      · exact .inl hx
      · exact .inr ⟨y, List.mem_append_right queue hy, hyx⟩
      · rcases List.mem_cons.1 hw with rfl | hw
        · -- All unseen nodes to which links of `w` lead were found.
          obtain ⟨y, hwy, -⟩ := Relation.TransGen.head'_iff.1 hwx
          exact absurd (hg.mem_unseenDeps.2 hwy.of_removeAll) (mem_removeAll.1 hwy.2).2
        · exact .inr ⟨w, List.mem_append_left _ hw, hwx⟩

/-- The search finds nothing twice. -/
theorem nodup_reachable (g : PlanGraph) (unseen queue : List Nat) :
    (g.reachable unseen queue).Nodup ∧ ∀ x ∈ g.reachable unseen queue, x ∈ unseen := by
  fun_induction PlanGraph.reachable g unseen queue with
  | case1 unseen => simp
  | case2 unseen v queue ih =>
    obtain ⟨hn, hsub⟩ := ih
    refine ⟨List.nodup_append.2 ⟨(nodup_eraseDups _).filter _, hn, ?_⟩, fun x hx => ?_⟩
    · rintro x hx y hy rfl
      exact (mem_removeAll.1 (hsub x hy)).2 hx
    · rcases List.mem_append.1 hx with hx | hx
      · exact mem_of_mem_unseenDeps hx
      · exact (mem_removeAll.1 (hsub x hx)).1

/-- **What a component needs, directly or through others**, is what its node leads to. -/
theorem Regular.mem_transitiveDeps (hg : g.Regular) :
    x ∈ g.transitiveDeps v ↔ TransGen g.Joins v x := by
  have hleads : g.Leads g.weights.eraseDups = g.Joins := by
    funext a b
    refine propext ⟨And.left, fun h => ⟨h, ?_⟩⟩
    rw [List.mem_eraseDups, hg.weights]
    exact List.mem_range.2 (h.lt hg).2
  rw [transitiveDeps, List.mem_mergeSort, hg.mem_reachable_iff, hleads]
  simp

/-- It is listed in ascending order. -/
theorem pairwise_transitiveDeps (g : PlanGraph) (v : Nat) :
    (g.transitiveDeps v).Pairwise (· < ·) := by
  have hle : (g.transitiveDeps v).Pairwise (· ≤ ·) := List.sortedLE_mergeSort.pairwise
  have hnodup : (g.transitiveDeps v).Nodup :=
    (List.mergeSort_perm _ _).nodup_iff.2 (nodup_reachable g _ _).1
  exact hle.imp₂ (fun a b h hne => Nat.lt_of_le_of_ne h hne) hnodup

end PlanGraph

/-! ## Plans -/

open PlanGraph

/-- **Graph queries are exact.** If the components of a plan stand at their indices, whatever their
edges point to, then there is an order of construction exactly if no component needs itself,
directly or through others. The order lists each index once, each after those that its component
needs. The direct dependencies of a component are what it needs, each once, in the order in which
it is first needed, and the dependents of a component are those of which it is a direct dependency.
The transitive dependencies are what a component needs directly or through others, ascending. -/
theorem graph_queries_are_exact (p : Plan) (h : p.Numbered) :
    ((∃ order, (ofPlan p).topologicalOrder = .ok order) ↔ ∀ i, ¬ TransGen p.Needs i i) ∧
    (∀ order, (ofPlan p).topologicalOrder = .ok order →
      order.Perm (List.range p.size) ∧
      ∀ before i after, order = before ++ i :: after → ∀ j, p.Needs i j → j ∈ before) ∧
    (∀ i, (ofPlan p).directDeps i = (p.targetsOf i).eraseDups) ∧
    (∀ i j, j ∈ (ofPlan p).dependents i ↔ i ∈ (ofPlan p).directDeps j) ∧
    ∀ i, ((ofPlan p).transitiveDeps i).Pairwise (· < ·) ∧
      ∀ j, j ∈ (ofPlan p).transitiveDeps i ↔ TransGen p.Needs i j := by
  have hg := regular_ofPlan h
  rw [← joins_ofPlan h, ← size_ofPlan p]
  refine ⟨⟨?_, fun ha => ⟨_, hg.topologicalOrder_eq_ok_iff.2 ⟨ha, rfl⟩⟩⟩, fun order ho => ?_,
    fun i => ?_, fun i j => ?_, fun i => ⟨pairwise_transitiveDeps _ i, fun j => ?_⟩⟩
  · rintro ⟨order, ho⟩
    exact (hg.topologicalOrder_eq_ok_iff.1 ho).1
  · obtain ⟨ha, rfl⟩ := hg.topologicalOrder_eq_ok_iff.1 ho
    exact hg.finishOrder_spec ha
  · rw [← targets_ofPlan h]
    exact List.map_congr_left fun l _ => hg.weight l.target
  · rw [hg.mem_dependents, hg.mem_directDeps]
  · exact hg.mem_transitiveDeps

/-- A server needs a log, a cache and something outside the plan, and a collection that holds the
log; the log and the cache need a store. -/
def diamond : Plan where
  components :=
    [{ index := 0, name := "store", origin := .annotated, type := .named "Store" [],
       dependencies := [] },
     { index := 1, name := "cache", origin := .annotated, type := .named "Cache" [],
       dependencies := [.reference { type := .named "Store" [] } ⟨0, false⟩] },
     { index := 2, name := "log", origin := .annotated, type := .named "Log" [],
       dependencies := [.valueOf { type := .named "Store" [], kind := .valueOf } ⟨0, false⟩] },
     { index := 3, name := "server", origin := .annotated, type := .named "Server" [],
       dependencies := [.reference { type := .named "Log" [] } ⟨2, false⟩,
         .reference { type := .named "Cache" [] } ⟨1, false⟩,
         .reference { type := .named "Clock" [] } ⟨9, false⟩,
         .allOf { type := .named "Sink" [], kind := .all } [⟨2, false⟩]] }]
  rounds := 1

theorem graph_queries_are_exact_diamond : diamond.Numbered ∧
    (∃ order, (ofPlan diamond).topologicalOrder = .ok order ∧ order.Perm [0, 1, 2, 3] ∧
      ∀ before after, order = before ++ 3 :: after → 1 ∈ before ∧ 2 ∈ before) ∧
    (ofPlan diamond).directDeps 3 = [2, 1] ∧ 3 ∈ (ofPlan diamond).dependents 2 ∧
    0 ∈ (ofPlan diamond).transitiveDeps 3 := by
  have hn : diamond.Numbered := by decide +kernel
  have htargets : ∀ i < 4, ∀ j ∈ diamond.targetsOf i, j < i := by decide +kernel
  have hlog : diamond.Needs 3 2 := Plan.mem_targetsOf.1 (by decide +kernel)
  have hcache : diamond.Needs 3 1 := Plan.mem_targetsOf.1 (by decide +kernel)
  have hstore : diamond.Needs 2 0 := Plan.mem_targetsOf.1 (by decide +kernel)
  have hlt (i j : Nat) (h : TransGen diamond.Needs i j) : j < i := by
    induction h with
    | single h => exact htargets i h.lt _ (Plan.mem_targetsOf.2 h)
    | @tail k j _ h ih => exact Nat.lt_trans (htargets k h.lt j (Plan.mem_targetsOf.2 h)) ih
  obtain ⟨hok, horder, hdirect, hdependents, htransitive⟩ := graph_queries_are_exact diamond hn
  obtain ⟨order, ho⟩ := hok.2 fun i hi => Nat.lt_irrefl i (hlt i i hi)
  obtain ⟨hperm, hbefore⟩ := horder order ho
  have hserver : (ofPlan diamond).directDeps 3 = [2, 1] := by
    rw [hdirect]
    decide +kernel
  refine ⟨hn, ⟨order, ho, hperm, fun before after e => ?_⟩, hserver, ?_, ?_⟩
  · exact ⟨hbefore before 3 after e 1 hcache, hbefore before 3 after e 2 hlog⟩
  · rw [hdependents, hserver]
    exact List.mem_cons_self
  · exact ((htransitive 3).2 0).2 (.tail (.single hlog) hstore)

end Wiring
