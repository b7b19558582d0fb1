import Mathlib.Data.List.Induction
import Mathlib.Data.List.Nodup
import Wiring.Plan.Graph.Order
/-!
# The links of a plan's graph

In a plan that is `Plan.Numbered`, each component stands at its index. Its graph then has a node for
each index, and a link from one to another if the first component needs the second (`Plan.Needs`):
one of its edges points there, and there is a component.

* `PlanGraph.regular_ofPlan`: nodes carry their own numbers, and links join nodes.
* `PlanGraph.targets_ofPlan`: the links from a node lead to what its component needs, each once, in
  the order in which it is first asked for.
* `PlanGraph.joins_ofPlan_iff`: the nodes that are joined are those of which one needs the other.
* `PlanGraph.label_ofPlan`: a link carries the first claim for which the other component is needed.
-/

namespace Wiring

/-! ## Distinct elements -/

section Distinct

variable {α : Type} [DecidableEq α] {l : List α} {x : α}

theorem eraseDups_concat :
    (l ++ [x]).eraseDups = if x ∈ l then l.eraseDups else l.eraseDups ++ [x] := by
  rw [List.eraseDups_append]
  by_cases h : x ∈ l
  · simp [List.removeAll, h]
  · simp [List.removeAll, h, List.eraseDups_cons]

theorem nodup_eraseDups (l : List α) : l.eraseDups.Nodup := by
  induction l using List.reverseRecOn with
  | nil => exact List.nodup_nil
  | append_singleton l x ih =>
    rw [eraseDups_concat]
    split
    · exact ih
    · next hx =>
      refine List.nodup_append.2 ⟨ih, List.pairwise_singleton _ x, ?_⟩
      rintro a ha b hb rfl
      rw [List.mem_singleton.1 hb] at ha
      exact hx (List.mem_eraseDups.1 ha)

end Distinct

/-! ## What components need -/

namespace Plan

/-- The components stand at their indices. -/
def Numbered (p : Plan) : Prop :=
  ∀ (i : Nat) (c : Component), p.components[i]? = some c → c.index = i

/-- Component `i` needs component `j`: there is one, and an edge of `i` points to it. -/
def Needs (p : Plan) (i j : Nat) : Prop :=
  j < p.size ∧ ∃ c, p.components[i]? = some c ∧ ∃ e ∈ c.dependencies, j ∈ e.constructionTargets

/-- What component `i` needs, as often as it does, in the order of its edges. -/
def targetsOf (p : Plan) (i : Nat) : List Nat :=
  (p.components[i]?.toList.flatMap fun c =>
    c.dependencies.flatMap Edge.constructionTargets).filter (· < p.size)

/-- The first claim for which component `i` needs component `j`. -/
def claimBehind? (p : Plan) (i j : Nat) : Option Claim :=
  p.components[i]?.bind fun c =>
    (c.dependencies.find? fun e => e.constructionTargets.contains j).map Edge.claim

variable {p : Plan} {i j : Nat}

/-- The indices are listed in order. -/
theorem numbered_iff : p.Numbered ↔ p.components.map Component.index = List.range p.size := by
  have hsize : p.size = p.components.length := rfl
  rw [List.ext_getElem?_iff, hsize]
  refine forall_congr' fun i => ?_
  rw [List.getElem?_map]
  by_cases hi : i < p.components.length
  · rw [List.getElem?_range hi, List.getElem?_eq_getElem hi]
    simp
  · have hle : p.components.length ≤ i := Nat.le_of_not_lt hi
    rw [List.getElem?_eq_none hle, List.getElem?_eq_none (by simpa using hle)]
    simp

instance : Decidable p.Numbered := decidable_of_iff _ numbered_iff.symm

theorem mem_targetsOf : j ∈ p.targetsOf i ↔ p.Needs i j := by
  simp [targetsOf, Needs, and_comm]

theorem Needs.lt (h : p.Needs i j) : i < p.size := by
  obtain ⟨-, c, hc, -⟩ := h
  exact (List.getElem?_eq_some_iff.1 hc).1

end Plan

namespace PlanGraph

variable {g : PlanGraph} {p : Plan} {size i j v w : Nat} {l k : Link} {ls links : List Link}

/-! ## Nodes -/

/-- A link joins the nodes. -/
def Joins (g : PlanGraph) (v w : Nat) : Prop := ∃ l ∈ g.links, l.source = v ∧ l.target = w

/-- The nodes carry their own numbers, and links join nodes. -/
structure Regular (g : PlanGraph) : Prop where
  /-- The component of a node has the node's number for its index. -/
  weights : g.weights = List.range g.size
  /-- Links join nodes. -/
  links : ∀ l ∈ g.links, l.source < g.size ∧ l.target < g.size

@[simp] theorem Regular.weight (h : g.Regular) (v : Nat) : g.weight v = v := by
  rw [PlanGraph.weight, h.weights]
  by_cases hv : v < g.size
  · rw [List.getElem?_range hv, Option.getD_some]
  · rw [List.getElem?_eq_none (by simpa using hv), Option.getD_none]

theorem Joins.lt (h : g.Joins v w) (hg : g.Regular) : v < g.size ∧ w < g.size := by
  obtain ⟨l, hl, rfl, rfl⟩ := h
  exact hg.links l hl

theorem joins_of_mem_linksFrom (h : l ∈ g.linksFrom v) : g.Joins v l.target := by
  obtain ⟨hl, hs⟩ := List.mem_filter.1 h
  exact ⟨l, hl, beq_iff_eq.1 hs, rfl⟩

theorem Joins.exists_link (h : g.Joins v w) : ∃ l ∈ g.linksFrom v, l.target = w := by
  obtain ⟨l, hl, hs, ht⟩ := h
  exact ⟨l, List.mem_filter.2 ⟨hl, beq_iff_eq.2 hs⟩, ht⟩

/-! ## One more link -/

theorem addLink_eq : addLink size links k =
    if k.source < size ∧ k.target < size ∧
        k.target ∉ (links.filter (·.source == k.source)).map Link.target then links ++ [k]
    else links := by
  have hany : (links.any fun l => l.source == k.source && l.target == k.target) = true ↔
      k.target ∈ (links.filter (·.source == k.source)).map Link.target := by
    simp [and_assoc]
  simp only [addLink, hany]

theorem lt_of_mem_addLink (hl : ∀ l ∈ links, l.source < size ∧ l.target < size)
    (h : l ∈ addLink size links k) : l.source < size ∧ l.target < size := by
  rw [addLink_eq] at h
  split at h
  · next hk =>
    rcases List.mem_append.1 h with h | h
    · exact hl l h
    · rw [List.mem_singleton.1 h]
      exact ⟨hk.1, hk.2.1⟩
  · exact hl l h

theorem lt_of_mem_foldl_addLink (h : l ∈ ls.foldl (addLink size) []) :
    l.source < size ∧ l.target < size := by
  induction ls using List.reverseRecOn generalizing l with
  | nil => cases h
  | append_singleton ls k ih =>
    rw [List.foldl_append] at h
    exact lt_of_mem_addLink (fun l => ih) h

/-- **What the links from a node lead to** is what was asked for, each once. -/
theorem targets_foldl_addLink (hi : i < size) :
    ((ls.foldl (addLink size) []).filter (·.source == i)).map Link.target =
      (((ls.filter (·.source == i)).map Link.target).filter (· < size)).eraseDups := by
  induction ls using List.reverseRecOn with
  | nil => rfl
  | append_singleton ls k ih =>
    rw [List.foldl_append, List.foldl_cons, List.foldl_nil, List.filter_append, addLink_eq]
    by_cases hs : k.source = i
    · have hk : [k].filter (·.source == i) = [k] := by simp [hs]
      rw [hk, List.map_append, List.filter_append, hs, ih]
      by_cases ht : k.target < size
      · have hkt : ([k].map Link.target).filter (· < size) = [k.target] := by simp [ht]
        rw [hkt, eraseDups_concat]
        split
        · next hnew =>
          rw [if_neg fun hold => hnew.2.2 (List.mem_eraseDups.2 hold), List.filter_append, hk,
            List.map_append, ih]
          rfl
        · next hold =>
          rw [if_pos (List.mem_eraseDups.1 (not_not.1 fun h => hold ⟨hi, ht, h⟩)), ih]
      · have hkt : ([k].map Link.target).filter (· < size) = [] := by simp [ht]
        rw [if_neg fun h => ht h.2.1, hkt, List.append_nil, ih]
    · have hk : [k].filter (·.source == i) = [] := by simp [hs]
      rw [hk, List.append_nil, ← ih]
      split
      · rw [List.filter_append, hk, List.append_nil]
      · rfl

/-- The first link from a node to another is the first that was asked for. -/
theorem find?_foldl_addLink (hi : i < size) (hj : j < size) :
    ((ls.foldl (addLink size) []).filter (·.source == i)).find? (·.target == j) =
      (ls.filter (·.source == i)).find? (·.target == j) := by
  induction ls using List.reverseRecOn with
  | nil => rfl
  | append_singleton ls k ih =>
    rw [List.foldl_append, List.foldl_cons, List.foldl_nil, addLink_eq, List.filter_append,
      List.find?_append, ← ih]
    split
    · rw [List.filter_append, List.find?_append]
    · next hk =>
      -- What was asked for last is no link to the other node, or not the first one.
      by_cases hkj : k.source = i ∧ k.target = j
      · obtain ⟨rfl, rfl⟩ := hkj
        have hold := not_not.1 fun h => hk ⟨hi, hj, h⟩
        obtain ⟨l, hl, ht⟩ := List.mem_map.1 hold
        have hfound : (((ls.foldl (addLink size) []).filter (·.source == k.source)).find?
            (·.target == k.target)).isSome = true :=
          List.find?_isSome.2 ⟨l, hl, beq_iff_eq.2 ht⟩
        obtain ⟨l', hl'⟩ := Option.isSome_iff_exists.1 hfound
        rw [hl']
        rfl
      · have hnone : ([k].filter (·.source == i)).find? (·.target == j) = none := by
          simpa using fun h => fun ht => hkj ⟨h, ht⟩
        rw [hnone, Option.or_none]

/-! ## The links of a plan -/

/-- What a component asks for, in a plan whose components stand at their indices. -/
theorem filter_index {l : List Component}
    (h : ∀ (j : Nat) (c : Component), l[j]? = some c → c.index = j) (i : Nat) :
    l.filter (·.index == i) = l[i]?.toList := by
  induction l using List.reverseRecOn with
  | nil => rfl
  | append_singleton l c ih =>
    have hc : c.index = l.length := h l.length c (by simp)
    have hl (j : Nat) (d : Component) (hd : l[j]? = some d) : d.index = j :=
      h j d (by rw [List.getElem?_append_left (List.getElem?_eq_some_iff.1 hd).1, hd])
    rw [List.filter_append, ih hl, List.filter_cons, hc, List.filter_nil]
    rcases Nat.lt_trichotomy i l.length with hi | rfl | hi
    · rw [List.getElem?_append_left hi]
      simp [Nat.ne_of_gt hi]
    · simp
    · rw [List.getElem?_eq_none (by omega), List.getElem?_eq_none (by simp; omega)]
      simp [Nat.ne_of_lt hi]

/-- What is asked for from a node are the links of its component. -/
theorem filter_linksOf (h : p.Numbered) (i : Nat) :
    (p.components.flatMap linksOf).filter (·.source == i) =
      p.components[i]?.toList.flatMap linksOf := by
  rw [List.filter_flatMap, ← filter_index h i]
  have hc (c : Component) :
      (linksOf c).filter (·.source == i) = if c.index = i then linksOf c else [] := by
    have hsource : ∀ l ∈ linksOf c, l.source = c.index := by
      intro l hl
      obtain ⟨e, -, hl⟩ := List.mem_flatMap.1 hl
      obtain ⟨t, -, rfl⟩ := List.mem_map.1 hl
      rfl
    split
    · next hi => exact List.filter_eq_self.2 fun l hl => by simp [hsource l hl, hi]
    · next hi => exact List.filter_eq_nil_iff.2 fun l hl => by simp [hsource l hl, hi]
  induction p.components with
  | nil => rfl
  | cons c cs ih =>
    rw [List.flatMap_cons, hc, ih, List.filter_cons]
    by_cases hi : c.index = i <;> simp [hi]

theorem map_target_linksOf (c : Component) :
    (linksOf c).map Link.target = c.dependencies.flatMap Edge.constructionTargets := by
  simp [linksOf, List.map_flatMap, Function.comp_def]

/-- Among links to some nodes, the first to `j` is found exactly if `j` is one of them. -/
theorem find?_map_target (i j : Nat) (label : String) (ts : List Nat) :
    (ts.map fun t => (⟨i, t, label⟩ : Link)).find? (·.target == j) =
      if j ∈ ts then some ⟨i, j, label⟩ else none := by
  induction ts with
  | nil => rfl
  | cons t ts ih =>
    rw [List.map_cons, List.find?_cons, ih]
    by_cases ht : t = j
    · simp [ht]
    · have hbeq : (t == j) = false := beq_false_of_ne ht
      simp [hbeq, Ne.symm ht]

/-- The first link that is asked for carries the claim of the first edge. -/
theorem find?_linksOf (c : Component) (j : Nat) : (linksOf c).find? (·.target == j) =
    (c.dependencies.find? fun e => e.constructionTargets.contains j).map fun e =>
      ⟨c.index, j, e.claim.render⟩ := by
  unfold linksOf
  induction c.dependencies with
  | nil => rfl
  | cons e es ih =>
    rw [List.flatMap_cons, List.find?_append, List.find?_cons, ih, find?_map_target]
    by_cases hj : j ∈ e.constructionTargets <;> simp [hj]

theorem size_ofPlan (p : Plan) : (ofPlan p).size = p.size := List.length_map _

/-- **The graph of a plan has a node for each index.** -/
theorem regular_ofPlan (h : p.Numbered) : (ofPlan p).Regular where
  weights := size_ofPlan p ▸ Plan.numbered_iff.1 h
  links l hl := by
    rw [size_ofPlan]
    exact lt_of_mem_foldl_addLink hl

/-- **The links from a node lead to what its component needs**, each once, in the order in which it
is first asked for. -/
theorem targets_ofPlan (h : p.Numbered) (i : Nat) :
    ((ofPlan p).linksFrom i).map Link.target = (p.targetsOf i).eraseDups := by
  have hlinks : (ofPlan p).linksFrom i =
      ((p.components.flatMap linksOf).foldl (addLink p.size) []).filter (·.source == i) := rfl
  by_cases hi : i < p.size
  · rw [hlinks, targets_foldl_addLink hi, filter_linksOf h, List.map_flatMap]
    simp only [map_target_linksOf]
    rfl
  · have hnil : (ofPlan p).linksFrom i = [] := by
      refine List.filter_eq_nil_iff.2 fun l hl hs => ?_
      have := lt_of_mem_foldl_addLink hl
      rw [beq_iff_eq] at hs
      omega
    have hnone : p.components[i]? = none := List.getElem?_eq_none (Nat.le_of_not_lt hi)
    simp [hnil, Plan.targetsOf, hnone]

/-- **Nodes are joined if one of the components needs the other.** -/
theorem joins_ofPlan_iff (h : p.Numbered) : (ofPlan p).Joins i j ↔ p.Needs i j := by
  rw [← Plan.mem_targetsOf, ← List.mem_eraseDups, ← targets_ofPlan h, List.mem_map]
  constructor
  · exact Joins.exists_link
  · rintro ⟨l, hl, rfl⟩
    exact joins_of_mem_linksFrom hl

theorem joins_ofPlan (h : p.Numbered) : (ofPlan p).Joins = p.Needs := by
  funext i j
  exact propext (joins_ofPlan_iff h)

/-- No two links from a node lead to the same one. -/
theorem nodup_targets_ofPlan (h : p.Numbered) (i : Nat) :
    (((ofPlan p).linksFrom i).map Link.target).Nodup := by
  rw [targets_ofPlan h]
  exact nodup_eraseDups _

/-- **A link carries the first claim for which the other component is needed.** -/
theorem label_ofPlan (h : p.Numbered) (hl : l ∈ (ofPlan p).links) :
    ∃ c, p.claimBehind? l.source l.target = some c ∧ l.label = c.render := by
  obtain ⟨hs, ht⟩ := (regular_ofPlan h).links l hl
  rw [size_ofPlan] at hs ht
  have hfrom : l ∈ (ofPlan p).linksFrom l.source := List.mem_filter.2 ⟨hl, beq_self_eq_true _⟩
  have hfirst : ((ofPlan p).linksFrom l.source).find? (·.target == l.target) = some l := by
    obtain ⟨k, hk⟩ := Option.isSome_iff_exists.1
      (List.find?_isSome (p := (·.target == l.target)).2 ⟨l, hfrom, beq_self_eq_true _⟩)
    have htarget : k.target = l.target := by simpa using List.find?_some hk
    rw [hk, List.inj_on_of_nodup_map (nodup_targets_ofPlan h _) (List.mem_of_find?_eq_some hk) hfrom
      htarget]
  have hasked : (p.components[l.source]?.toList.flatMap linksOf).find? (·.target == l.target) =
      some l := by
    rw [← filter_linksOf h, ← find?_foldl_addLink hs ht]
    exact hfirst
  obtain ⟨c, hc⟩ : ∃ c, p.components[l.source]? = some c :=
    ⟨_, List.getElem?_eq_getElem hs⟩
  rw [hc, Option.toList_some, List.flatMap_singleton, find?_linksOf] at hasked
  obtain ⟨e, he, hel⟩ := Option.map_eq_some_iff.1 hasked
  refine ⟨e.claim, ?_, (congrArg Link.label hel).symm⟩
  rw [Plan.claimBehind?, hc, Option.bind_some, he]
  rfl

end PlanGraph

end Wiring
