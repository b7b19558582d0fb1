import Mathlib.Data.List.Chain
import Mathlib.Logic.Relation
import Wiring.Plan.Graph.Tree
import Wiring.Proofs.Plan.Links
/-!
# What a dependency tree shows

The text of a dependency tree is the written form of an `Outline`, which is grown without a stack:
each component has the outlines of its direct dependencies below it, unless it was met before, or is
so deep that they are cut off (`PlanGraph.outline`, `PlanGraph.renderTree_eq`).

A component that was met is not expanded again, not even if its dependencies were cut off. So what
is said to be shown above is shown above, with all its direct dependencies, unless these are cut off
there; and what only components that are cut off lead to appears nowhere, however short the way.

* `PlanGraph.accounts_outlineWithin`: of what was met, the direct dependencies are shown or cut off.
* `trees_show_what_is_not_cut_off` says what the tree below a component shows.
* `detour_hides_components`: a tree that does not show what it says is shown above.
-/

namespace Wiring

open Relation (TransGen)

/-! ## Outlines -/

/-- What a tree shows of a component. -/
inductive Outline where
  /-- The component, with its direct dependencies below it. -/
  | expanded (index : Nat) (below : List Outline)
  /-- The component, with its direct dependencies cut off. -/
  | truncated (index : Nat)
  /-- The component, which is said to be shown above. -/
  | shownAbove (index : Nat)

namespace Outline

/-- The component. -/
def index : Outline → Nat
  | .expanded v _ => v
  | .truncated v => v
  | .shownAbove v => v

mutual

/-- The outlines that occur in an outline, in the order of their lines. -/
def occurrences : Outline → List Outline
  | .expanded v below => .expanded v below :: occurrencesAll below
  | .truncated v => [.truncated v]
  | .shownAbove v => [.shownAbove v]

/-- The outlines that occur in some outlines. -/
def occurrencesAll : List Outline → List Outline
  | [] => []
  | o :: os => o.occurrences ++ occurrencesAll os

end

/-- Where a component is written; its depth does not show in the text. -/
def place (v : Nat) (indent : String) (isLast : Bool) : PlanGraph.TreeEntry :=
  ⟨v, indent, isLast, 0⟩

mutual

/-- The lines of an outline, after what stands before the connector of the component. -/
def lines (g : PlanGraph) (indent : String) (isLast : Bool) : Outline → List String
  | .expanded v below =>
    (place v indent isLast).line g :: linesAll g (place v indent isLast).childIndent below
  | .truncated v =>
    [(place v indent isLast).line g, (place v indent isLast).remark "truncated"]
  | .shownAbove v =>
    [(place v indent isLast).line g, (place v indent isLast).remark "shown above"]

/-- The lines of the outlines below a component. -/
def linesAll (g : PlanGraph) (indent : String) : List Outline → List String
  | [] => []
  | o :: os => o.lines g indent os.isEmpty ++ linesAll g indent os

end

/-- The outlines of some components in turn, and what is unseen after them. -/
def each (f : List Nat → Nat → Outline × List Nat) (unseen : List Nat) :
    List Nat → List Outline × List Nat
  | [] => ([], unseen)
  | v :: vs => ((f unseen v).1 :: (each f (f unseen v).2 vs).1, (each f (f unseen v).2 vs).2)

end Outline

namespace PlanGraph

open Outline (each)

/-- The outline of a component with room for so many levels below it, if some components are still
unseen, and what is unseen after it. -/
def outlineWithin (g : PlanGraph) : (room : Nat) → (unseen : List Nat) → (v : Nat) →
    Outline × List Nat
  | 0, unseen, v =>
    if v ∈ unseen then
      (if g.directDeps v = [] then .expanded v [] else .truncated v, unseen.erase v)
    else (.shownAbove v, unseen)
  | room + 1, unseen, v =>
    if v ∈ unseen then
      (.expanded v (each (g.outlineWithin room) (unseen.erase v) (g.directDeps v)).1,
        (each (g.outlineWithin room) (unseen.erase v) (g.directDeps v)).2)
    else (.shownAbove v, unseen)

/-- The outline that the tree below a component is written from. -/
def outline (g : PlanGraph) (v : Nat) : Outline :=
  (g.outlineWithin maxTreeDepth (v :: g.weights).eraseDups v).1

/-- A way along direct dependencies: the components on it in order. -/
structure Way (g : PlanGraph) (v w : Nat) (path : List Nat) : Prop where
  /-- It begins with `v`, -/
  head : path.head? = some v
  /-- ends with `w`, -/
  last : path.getLast? = some w
  /-- and each component on it directly depends on the next. -/
  chain : path.IsChain fun a b => b ∈ g.directDeps a

variable {g : PlanGraph} {p : Plan} {nodes unseen vs path : List Nat} {v w x i room : Nat}
  {o t : Outline} {os below earlier : List Outline} {e : TreeEntry} {entries : List TreeEntry}
  {f : List Nat → Nat → Outline × List Nat}

/-! ## The text -/

@[simp] theorem children_nil (e : TreeEntry) : e.children [] = [] := rfl

@[simp] theorem children_cons (e : TreeEntry) (v : Nat) (vs : List Nat) :
    e.children (v :: vs) = ⟨v, e.childIndent, vs.isEmpty, e.depth + 1⟩ :: e.children vs := by
  cases vs <;> rfl

/-- What holds of each outline: it holds of a component that was met, of one that is cut off, of one
without dependencies where there is no more room, and of one with the outlines of its direct
dependencies below it, if it holds of all outlines with less room. -/
theorem outlineWithin_induct {motive : Nat → List Nat → Nat → Outline → List Nat → Prop}
    (met : ∀ room unseen v, v ∉ unseen → motive room unseen v (.shownAbove v) unseen)
    (cut : ∀ unseen v, v ∈ unseen → g.directDeps v ≠ [] →
      motive 0 unseen v (.truncated v) (unseen.erase v))
    (leaf : ∀ unseen v, v ∈ unseen → g.directDeps v = [] →
      motive 0 unseen v (.expanded v []) (unseen.erase v))
    (expand : ∀ room unseen v, v ∈ unseen →
      (∀ unseen w, motive room unseen w (g.outlineWithin room unseen w).1
        (g.outlineWithin room unseen w).2) →
      motive (room + 1) unseen v
        (.expanded v (each (g.outlineWithin room) (unseen.erase v) (g.directDeps v)).1)
        (each (g.outlineWithin room) (unseen.erase v) (g.directDeps v)).2)
    (room : Nat) (unseen : List Nat) (v : Nat) :
    motive room unseen v (g.outlineWithin room unseen v).1 (g.outlineWithin room unseen v).2 := by
  induction room generalizing unseen v with
  | zero =>
    rw [outlineWithin]
    split
    · next hv =>
      dsimp only
      split
      · next hd => exact leaf unseen v hv hd
      · next hd => exact cut unseen v hv hd
    · next hv => exact met 0 unseen v hv
  | succ room ih =>
    rw [outlineWithin]
    split
    · next hv => exact expand room unseen v hv ih
    · next hv => exact met (room + 1) unseen v hv

theorem outlineWithin_of_notMem (hv : v ∉ unseen) :
    g.outlineWithin room unseen v = (.shownAbove v, unseen) := by
  cases room <;> exact if_neg hv

theorem index_outlineWithin (g : PlanGraph) (room : Nat) (unseen : List Nat) (v : Nat) :
    (g.outlineWithin room unseen v).1.index = v :=
  outlineWithin_induct (motive := fun _ _ v t _ => t.index = v) (fun _ _ _ _ => rfl)
    (fun _ _ _ _ => rfl) (fun _ _ _ _ => rfl) (fun _ _ _ _ _ => rfl) room unseen v

/-- The components of the outlines are those asked for. -/
theorem map_index_each (hf : ∀ unseen v, (f unseen v).1.index = v) (unseen vs : List Nat) :
    (each f unseen vs).1.map Outline.index = vs := by
  induction vs generalizing unseen with
  | nil => rfl
  | cons v vs ih => rw [each, List.map_cons, hf, ih]

/-- If the stack writes the outline of a component with so much room, it does so for some. -/
theorem treeLines_children (hf : ∀ unseen (e : TreeEntry) entries, e.depth + room = maxTreeDepth →
      g.treeLines unseen (e :: entries) =
        (g.outlineWithin room unseen e.index).1.lines g e.indent e.isLast ++
          g.treeLines (g.outlineWithin room unseen e.index).2 entries)
    (he : e.depth + 1 + room = maxTreeDepth) (unseen vs : List Nat) (entries : List TreeEntry) :
    g.treeLines unseen (e.children vs ++ entries) =
      Outline.linesAll g e.childIndent (each (g.outlineWithin room) unseen vs).1 ++
        g.treeLines (each (g.outlineWithin room) unseen vs).2 entries := by
  induction vs generalizing unseen with
  | nil => rfl
  | cons v vs ih =>
    have hempty : (each (g.outlineWithin room) (g.outlineWithin room unseen v).2 vs).1.isEmpty =
        vs.isEmpty := by
      cases vs <;> rfl
    rw [children_cons, List.cons_append, hf _ _ _ he, ih, each, Outline.linesAll, hempty,
      List.append_assoc]

/-- **The stack writes the outline** of the component on top of it, and then the rest. -/
theorem treeLines_cons (g : PlanGraph) (room : Nat) (unseen : List Nat) (e : TreeEntry)
    (entries : List TreeEntry) (he : e.depth + room = maxTreeDepth) :
    g.treeLines unseen (e :: entries) =
      (g.outlineWithin room unseen e.index).1.lines g e.indent e.isLast ++
        g.treeLines (g.outlineWithin room unseen e.index).2 entries := by
  induction room generalizing unseen e entries with
  | zero =>
    rw [treeLines, outlineWithin]
    split
    · have hdepth : ¬ e.depth < maxTreeDepth := by omega
      simp only [if_neg hdepth, List.isEmpty_iff]
      split <;> rfl
    · rfl
  | succ room ih =>
    rw [treeLines, outlineWithin]
    split
    · have hdepth : e.depth < maxTreeDepth := by omega
      simp only [if_pos hdepth]
      -- Without dependencies nothing is pushed, so the two branches come to the same.
      have hleaf (rest : List Nat) :
          (if (g.directDeps e.index).isEmpty then g.treeLines rest entries
            else g.treeLines rest (e.children (g.directDeps e.index) ++ entries)) =
          g.treeLines rest (e.children (g.directDeps e.index) ++ entries) := by
        split
        · next hd => rw [List.isEmpty_iff.1 hd, children_nil, List.nil_append]
        · rfl
      rw [hleaf, treeLines_children ih (by omega)]
      rfl
    · rfl

/-- **The text of a dependency tree** is the written form of its outline. -/
theorem renderTree_eq (hv : v < g.size) :
    g.renderTree v = String.join ((g.outline v).lines g "" true) := by
  rw [renderTree, if_pos hv, treeLines_cons g maxTreeDepth _ _ _ (Nat.zero_add _), treeLines,
    List.append_nil]
  rfl

/-! ## What occurs -/

theorem occurrencesAll_eq_flatMap (os : List Outline) :
    Outline.occurrencesAll os = os.flatMap Outline.occurrences := by
  induction os with
  | nil => rfl
  | cons o os ih => rw [Outline.occurrencesAll, ih, List.flatMap_cons]

theorem self_mem_occurrences (o : Outline) : o ∈ o.occurrences := by
  cases o <;> simp [Outline.occurrences]

/-- Each of the outlines was made for one of the components. -/
theorem exists_of_mem_each (h : o ∈ (each f unseen vs).1) :
    ∃ unseen, ∃ v ∈ vs, o = (f unseen v).1 := by
  induction vs generalizing unseen with
  | nil => cases h
  | cons v vs ih =>
    rcases List.mem_cons.1 h with rfl | h
    · exact ⟨unseen, v, List.mem_cons_self, rfl⟩
    · obtain ⟨unseen, w, hw, rfl⟩ := ih h
      exact ⟨unseen, w, List.mem_cons_of_mem v hw, rfl⟩

/-- What occurs in some outlines occurs in one of them. -/
theorem mem_occurrencesAll : o ∈ Outline.occurrencesAll os ↔ ∃ t ∈ os, o ∈ t.occurrences := by
  rw [occurrencesAll_eq_flatMap, List.mem_flatMap]

/-- **Where a component is expanded**, all its direct dependencies are shown below it. -/
theorem expanded_outlineWithin
    (h : .expanded x below ∈ (g.outlineWithin room unseen v).1.occurrences) :
    below.map Outline.index = g.directDeps x ∧
      ∀ c ∈ below, c ∈ (g.outlineWithin room unseen v).1.occurrences := by
  refine outlineWithin_induct (g := g) (motive := fun _ _ _ t _ =>
    .expanded x below ∈ t.occurrences →
      below.map Outline.index = g.directDeps x ∧ ∀ c ∈ below, c ∈ t.occurrences)
    ?_ ?_ ?_ ?_ room unseen v h
  · intro _ _ _ _ h
    simp [Outline.occurrences] at h
  · intro _ _ _ _ h
    simp [Outline.occurrences] at h
  · intro _ _ _ hd h
    obtain ⟨rfl, rfl⟩ : x = _ ∧ below = [] := by
      simpa [Outline.occurrences, Outline.occurrencesAll] using h
    exact ⟨hd.symm, fun c hc => nomatch hc⟩
  · intro room unseen v _ ih h
    rcases List.mem_cons.1 h with h | h
    · obtain ⟨rfl, rfl⟩ := Outline.expanded.inj h
      refine ⟨map_index_each (index_outlineWithin g room) _ _, fun c hc => ?_⟩
      exact List.mem_cons_of_mem _ (mem_occurrencesAll.2 ⟨c, hc, self_mem_occurrences c⟩)
    · obtain ⟨t, ht, h⟩ := mem_occurrencesAll.1 h
      obtain ⟨unseen, w, -, rfl⟩ := exists_of_mem_each ht
      obtain ⟨hindex, hbelow⟩ := ih unseen w h
      exact ⟨hindex, fun c hc =>
        List.mem_cons_of_mem _ (mem_occurrencesAll.2 ⟨_, ht, hbelow c hc⟩)⟩

theorem Way.cons (h : g.Way w x path) (hw : w ∈ g.directDeps v) : g.Way v x (v :: path) where
  head := rfl
  last := by
    obtain ⟨rest, rfl⟩ := List.head?_eq_some_iff.1 h.head
    rw [List.getLast?_cons_cons, h.last]
  chain := List.isChain_cons.2 ⟨fun y hy => by
    cases h.head.symm.trans hy
    exact hw, h.chain⟩

/-- **What is cut off** has dependencies, and there is a way to it that takes up all the room. -/
theorem truncated_outlineWithin (h : .truncated x ∈ (g.outlineWithin room unseen v).1.occurrences) :
    g.directDeps x ≠ [] ∧ ∃ path, g.Way v x path ∧ path.length = room + 1 := by
  refine outlineWithin_induct (g := g) (motive := fun room _ v t _ => .truncated x ∈ t.occurrences →
    g.directDeps x ≠ [] ∧ ∃ path, g.Way v x path ∧ path.length = room + 1)
    ?_ ?_ ?_ ?_ room unseen v h
  · intro _ _ _ _ h
    simp [Outline.occurrences] at h
  · intro _ v _ hd h
    obtain rfl : x = v := by simpa [Outline.occurrences] using h
    exact ⟨hd, [x], ⟨rfl, rfl, List.isChain_singleton _⟩, rfl⟩
  · intro _ _ _ _ h
    simp [Outline.occurrences, Outline.occurrencesAll] at h
  · intro room unseen v _ ih h
    rcases List.mem_cons.1 h with h | h
    · cases h
    · obtain ⟨t, ht, h⟩ := mem_occurrencesAll.1 h
      obtain ⟨unseen, w, hw, rfl⟩ := exists_of_mem_each ht
      obtain ⟨hd, path, hpath, hlength⟩ := ih unseen w h
      exact ⟨hd, v :: path, hpath.cons hw, by rw [List.length_cons, hlength]⟩

/-! ## What is said to be shown above -/

/-- Among the outlines, one is of the component, with all its direct dependencies below it, or with
these cut off. -/
def Told (g : PlanGraph) (earlier : List Outline) (x : Nat) : Prop :=
  (∃ below, .expanded x below ∈ earlier ∧ below.map Outline.index = g.directDeps x) ∨
    .truncated x ∈ earlier

/-- What one of the outlines says to be shown above was told before it. -/
def Truthful (g : PlanGraph) (earlier os : List Outline) : Prop :=
  ∀ before x after, os = before ++ .shownAbove x :: after → g.Told (earlier ++ before) x

/-- Of the nodes, those that are not unseen any more were told. -/
def Accounts (g : PlanGraph) (nodes : List Nat) (earlier : List Outline) (unseen : List Nat) :
    Prop :=
  ∀ x ∈ nodes, x ∉ unseen → g.Told earlier x

theorem Told.mono (h : g.Told earlier x) (hs : earlier ⊆ os) : g.Told os x :=
  h.imp (fun ⟨below, hm, hb⟩ => ⟨below, hs hm, hb⟩) (@hs _)

theorem truthful_nil : g.Truthful earlier [] := by
  intro before x after h
  simp at h

theorem truthful_singleton (ho : ∀ x, o = .shownAbove x → g.Told earlier x) :
    g.Truthful earlier [o] := by
  intro before x after h
  rcases List.singleton_eq_append_iff.1 h with ⟨rfl, e⟩ | ⟨-, e⟩
  · rw [List.append_nil]
    exact ho x (List.cons.inj e).1.symm
  · cases e

theorem Truthful.append (h : g.Truthful earlier os) (h' : g.Truthful (earlier ++ os) below) :
    g.Truthful earlier (os ++ below) := by
  intro before x after e
  rcases List.append_eq_append_iff.1 e with ⟨rest, rfl, hb⟩ | ⟨rest, ho, hr⟩
  · rw [← List.append_assoc]
    exact h' rest x after hb
  · cases rest with
    | nil =>
      obtain rfl : os = before := by simpa using ho
      simpa using h' [] x after (by simpa using hr.symm)
    | cons o rest =>
      obtain ⟨rfl, -⟩ := List.cons.inj hr
      exact h before x rest ho

/-- A component is told. -/
theorem Accounts.erase (h : g.Accounts nodes earlier unseen) (ho : g.Told [o] v) :
    g.Accounts nodes (earlier ++ [o]) (unseen.erase v) := by
  intro x hx hu
  by_cases hv : x = v
  · exact hv ▸ ho.mono (List.subset_append_right _ _)
  · exact (h x hx fun hm => hu ((List.mem_erase_of_ne hv).2 hm)).mono (List.subset_append_left _ _)

/-- If it accounts for the outline of each component, it does so for some in turn. -/
theorem accounts_each (hf : ∀ unseen v earlier, v ∈ nodes → g.Accounts nodes earlier unseen →
      g.Truthful earlier (f unseen v).1.occurrences ∧
        g.Accounts nodes (earlier ++ (f unseen v).1.occurrences) (f unseen v).2)
    (hvs : ∀ v ∈ vs, v ∈ nodes) (h : g.Accounts nodes earlier unseen) :
    g.Truthful earlier (Outline.occurrencesAll (each f unseen vs).1) ∧
      g.Accounts nodes (earlier ++ Outline.occurrencesAll (each f unseen vs).1)
        (each f unseen vs).2 := by
  induction vs generalizing unseen earlier with
  | nil =>
    rw [each, Outline.occurrencesAll, List.append_nil]
    exact ⟨truthful_nil, h⟩
  | cons v vs ih =>
    obtain ⟨hv, hvs⟩ := List.forall_mem_cons.1 hvs
    obtain ⟨ht, ha⟩ := hf unseen v earlier hv h
    obtain ⟨hts, has⟩ := ih hvs ha
    rw [each, Outline.occurrencesAll, ← List.append_assoc]
    exact ⟨ht.append hts, has⟩

/-- **What was met was told**, and stays told when the outline of one more component is written. -/
theorem accounts_outlineWithin (hnodes : ∀ x, ∀ y ∈ g.directDeps x, y ∈ nodes) (hv : v ∈ nodes)
    (h : g.Accounts nodes earlier unseen) :
    g.Truthful earlier (g.outlineWithin room unseen v).1.occurrences ∧
      g.Accounts nodes (earlier ++ (g.outlineWithin room unseen v).1.occurrences)
        (g.outlineWithin room unseen v).2 := by
  refine outlineWithin_induct (g := g) (motive := fun _ unseen v t rest => ∀ earlier, v ∈ nodes →
    g.Accounts nodes earlier unseen → g.Truthful earlier t.occurrences ∧
      g.Accounts nodes (earlier ++ t.occurrences) rest) ?_ ?_ ?_ ?_ room unseen v earlier hv h
  · intro _ unseen v hu earlier hv h
    refine ⟨truthful_singleton fun x e => ?_, fun x hx hu => ?_⟩
    · obtain rfl := Outline.shownAbove.inj e
      exact h v hv hu
    · exact (h x hx hu).mono (List.subset_append_left _ _)
  · intro unseen v _ _ earlier _ h
    exact ⟨truthful_singleton nofun, h.erase (.inr List.mem_cons_self)⟩
  · intro unseen v _ hd earlier _ h
    exact ⟨truthful_singleton nofun,
      h.erase (.inl ⟨[], List.mem_cons_self, hd.symm⟩)⟩
  · intro room unseen v _ ih earlier _ h
    set below := (each (g.outlineWithin room) (unseen.erase v) (g.directDeps v)).1 with hbelow
    have hindex : below.map Outline.index = g.directDeps v :=
      map_index_each (index_outlineWithin g room) _ _
    -- The component is told before those below it, which may lead to it again.
    have herase := h.erase (o := .expanded v below) (.inl ⟨below, List.mem_cons_self, hindex⟩)
    obtain ⟨ht, ha⟩ := accounts_each (fun unseen w earlier => ih unseen w earlier) (hnodes v) herase
    have hsplit : (Outline.expanded v below).occurrences =
        [.expanded v below] ++ Outline.occurrencesAll below := rfl
    have hself : g.Truthful earlier [.expanded v below] := truthful_singleton nofun
    rw [hsplit, ← List.append_assoc]
    exact ⟨hself.append ht, ha⟩

/-! ## What appears -/

/-- **A way on which nothing is cut off** leads from what appears to what appears. -/
theorem Way.appears {os : List Outline} (hway : g.Way v w path)
    (hexpand : ∀ x ∈ path.dropLast, ∀ o ∈ os, o.index = x →
      ∃ below : List Outline, below.map Outline.index = g.directDeps x ∧ ∀ c ∈ below, c ∈ os)
    (hv : ∃ o ∈ os, o.index = v) : ∃ o ∈ os, o.index = w := by
  induction path generalizing v with
  | nil => cases hway.head
  | cons x rest ih =>
    obtain rfl : x = v := by simpa using hway.head
    cases rest with
    | nil =>
      obtain rfl : x = w := by simpa using hway.last
      exact hv
    | cons y rest =>
      obtain ⟨hxy, hchain⟩ := List.isChain_cons_cons.1 hway.chain
      have hrest : g.Way y w (y :: rest) := ⟨rfl, by simpa using hway.last, hchain⟩
      rw [List.dropLast_cons_cons] at hexpand
      obtain ⟨o, ho, hx⟩ := hv
      obtain ⟨below, hbelow, hc⟩ := hexpand x List.mem_cons_self o ho hx
      obtain ⟨c, hcb, rfl⟩ := List.mem_map.1 (hbelow ▸ hxy)
      exact ih hrest (fun x hx => hexpand x (List.mem_cons_of_mem _ hx)) ⟨c, hc c hcb, rfl⟩

/-- The direct dependencies are what the component needs. -/
theorem directDeps_ofPlan (h : p.Numbered) (i : Nat) :
    (ofPlan p).directDeps i = (p.targetsOf i).eraseDups := by
  rw [← targets_ofPlan h]
  exact List.map_congr_left fun l _ => (regular_ofPlan h).weight l.target

/-- Direct dependencies in the graph of a plan are components of it. -/
theorem mem_weights_of_mem_directDeps (hw : w ∈ (ofPlan p).directDeps v) :
    w ∈ (ofPlan p).weights := by
  obtain ⟨l, hl, rfl⟩ := List.mem_map.1 hw
  have ht : l.target < (ofPlan p).weights.length := by
    have := (lt_of_mem_foldl_addLink (List.mem_of_mem_filter hl)).2
    rwa [← size_ofPlan] at this
  rw [weight, List.getElem?_eq_getElem ht, Option.getD_some]
  exact List.getElem_mem ht

end PlanGraph

open PlanGraph

/-! ## Plans -/

/-- A plan of `n` parts, each of which needs those listed for it. -/
def planOf (n : Nat) (deps : Nat → List Nat) : Plan where
  components := (List.range n).map fun i =>
    { index := i, name := "part", origin := .annotated, type := .named "Part" [],
      dependencies := (deps i).map fun d => .reference { type := .named "Part" [] } ⟨d, false⟩ }
  rounds := 1

theorem size_planOf (n : Nat) (deps : Nat → List Nat) : (planOf n deps).size = n := by
  simp [Plan.size, planOf]

theorem numbered_planOf (n : Nat) (deps : Nat → List Nat) : (planOf n deps).Numbered := by
  rw [Plan.numbered_iff, size_planOf, planOf, List.map_map]
  exact List.map_id' _

theorem targetsOf_planOf {n i : Nat} (deps : Nat → List Nat) (hi : i < n) :
    (planOf n deps).targetsOf i = (deps i).filter (· < n) := by
  rw [Plan.targetsOf, size_planOf, planOf, List.getElem?_map, List.getElem?_range hi]
  simp [List.flatMap_map, Edge.constructionTargets]

theorem directDeps_planOf {n i : Nat} (deps : Nat → List Nat) (hi : i < n) :
    (ofPlan (planOf n deps)).directDeps i = ((deps i).filter (· < n)).eraseDups := by
  rw [directDeps_ofPlan (numbered_planOf n deps), targetsOf_planOf deps hi]

/-- **Trees show what is not cut off.** The text of the tree below a component is the written form
of its outline.

* What is said to be shown above is shown above, with all its direct dependencies below it, unless
  these are cut off there.
* A component appears if a way leads to it on which no component before it is cut off.
* A component is cut off only if it has dependencies, and as many steps lead to it as a tree is
  deep. -/
theorem trees_show_what_is_not_cut_off (p : Plan) (i : Nat) (hi : i < p.size) :
    let g := ofPlan p
    let t := g.outline i
    g.renderTree i = String.join (t.lines g "" true) ∧
    (∀ before v after, t.occurrences = before ++ .shownAbove v :: after → .truncated v ∉ before →
      ∃ below, .expanded v below ∈ before ∧ below.map Outline.index = g.directDeps v) ∧
    (∀ v path, g.Way i v path → (∀ x ∈ path.dropLast, .truncated x ∉ t.occurrences) →
      ∃ o ∈ t.occurrences, o.index = v) ∧
    ∀ v, .truncated v ∈ t.occurrences →
      g.directDeps v ≠ [] ∧ ∃ path, g.Way i v path ∧ path.length = maxTreeDepth + 1 := by
  intro g t
  -- At the start no component was met, and there is nothing to account for.
  have hstart : g.Accounts (i :: g.weights).eraseDups [] (i :: g.weights).eraseDups :=
    fun x hx hu => absurd hx hu
  have hnodes (x y : Nat) (hy : y ∈ g.directDeps x) : y ∈ (i :: g.weights).eraseDups :=
    List.mem_eraseDups.2 (List.mem_cons_of_mem i (mem_weights_of_mem_directDeps hy))
  have htruthful : g.Truthful [] t.occurrences :=
    (accounts_outlineWithin hnodes (List.mem_eraseDups.2 List.mem_cons_self) hstart).1
  have hshown (before : List Outline) (v : Nat) (after : List Outline)
      (h : t.occurrences = before ++ .shownAbove v :: after) (hv : .truncated v ∉ before) :
      ∃ below, .expanded v below ∈ before ∧ below.map Outline.index = g.directDeps v :=
    (htruthful before v after h).resolve_right hv
  refine ⟨renderTree_eq (by rwa [size_ofPlan]), hshown, fun v path hway hcut => ?_,
    fun v hv => truncated_outlineWithin hv⟩
  refine hway.appears (fun x hx o ho e => ?_) ⟨t, self_mem_occurrences t, index_outlineWithin ..⟩
  cases o with
  | expanded y below =>
    obtain rfl : y = x := e
    exact ⟨below, expanded_outlineWithin ho⟩
  | truncated y =>
    obtain rfl : y = x := e
    exact absurd ho (hcut y hx)
  | shownAbove y =>
    obtain rfl : y = x := e
    obtain ⟨before, after, h⟩ := List.append_of_mem ho
    obtain ⟨below, hb, -⟩ := hshown before y after h fun hm =>
      hcut y hx (h ▸ List.mem_append_left _ hm)
    exact ⟨below, expanded_outlineWithin (h ▸ List.mem_append_left _ hb)⟩

/-- Two parts need the same third, which needs a fourth. -/
def shared : Plan := planOf 5 fun
  | 4 => [2, 3]
  | 3 => [1]
  | 2 => [1]
  | 1 => [0]
  | _ => []

theorem trees_show_what_is_not_cut_off_shared : 4 < shared.size ∧
    (ofPlan shared).renderTree 4 = "└── [4] part: Part
    ├── [2] part: Part
    │   └── [1] part: Part
    │       └── [0] part: Part
    └── [3] part: Part
        └── [1] part: Part
            └── (shown above)
" ∧
    ∃ before, ((ofPlan shared).outline 4).occurrences = before ++ [.shownAbove 1] ∧
      (∃ below, .expanded 1 below ∈ before ∧ below.map Outline.index = [0]) ∧
      ∃ o ∈ ((ofPlan shared).outline 4).occurrences, o.index = 0 := by
  have hsize : 4 < shared.size := by decide +kernel
  obtain ⟨htext, hshown, hway, -⟩ := trees_show_what_is_not_cut_off shared 4 hsize
  have houtline : (ofPlan shared).outline 4 = .expanded 4
      [.expanded 2 [.expanded 1 [.expanded 0 []]], .expanded 3 [.shownAbove 1]] := rfl
  have hdeps : (ofPlan shared).directDeps 1 = [0] := rfl
  have hcut (x : Nat) : .truncated x ∉ ((ofPlan shared).outline 4).occurrences := by
    rw [houtline]
    simp [Outline.occurrences, Outline.occurrencesAll]
  obtain ⟨before, hbefore⟩ : ∃ before,
      ((ofPlan shared).outline 4).occurrences = before ++ [.shownAbove 1] :=
    ⟨_, by rw [houtline]; exact (List.dropLast_append_getLast (by simp [Outline.occurrences])).symm⟩
  refine ⟨hsize, ?_, before, hbefore, ?_, ?_⟩
  · rw [htext, houtline]
    decide +kernel
  · rw [← hdeps]
    exact hshown before 1 [] hbefore fun hm => hcut 1 (hbefore ▸ List.mem_append_left _ hm)
  · exact hway 0 [4, 2, 1, 0] ⟨rfl, rfl, by decide +kernel⟩ fun x _ => hcut x

/-- A part that needs the first of 256 others, each of which needs the next, and also the last of
them, which needs one more. -/
def detour : Plan := planOf 258 fun i =>
  if i = 257 then [256, 1] else if i = 0 then [] else [i - 1]

theorem size_detour : detour.size = 258 := size_planOf ..

theorem numbered_detour : detour.Numbered := numbered_planOf _ _

theorem directDeps_detour {v : Nat} (hv : v < 256) : (ofPlan detour).directDeps (v + 1) = [v] := by
  rw [detour, directDeps_planOf _ (by omega), if_neg (by omega), if_neg (by omega)]
  have hlt : v < 258 := by omega
  simp [hlt, List.eraseDups_cons]

theorem lt_of_needs_detour {v w : Nat} (h : TransGen detour.Needs v w) : w < v := by
  have hstep (v w : Nat) (h : detour.Needs v w) : w < v := by
    have hw := Plan.mem_targetsOf.2 h
    rw [detour, targetsOf_planOf _ (size_detour ▸ h.lt), List.mem_filter] at hw
    obtain ⟨hw, -⟩ := hw
    split at hw
    · have : w = 256 ∨ w = 1 := by simpa using hw
      omega
    · split at hw
      · cases hw
      · have : w = v - 1 := by simpa using hw
        omega
  induction h with
  | single h => exact hstep v _ h
  | tail _ h ih => exact Nat.lt_trans (hstep _ _ h) ih

/-- Along a chain of components, the last one for which there is room is cut off. -/
theorem outlineWithin_chain (g : PlanGraph) (room : Nat) (unseen : List Nat)
    (hdeps : ∀ v ≤ room, g.directDeps (v + 1) = [v]) (hu : ∀ v ≤ room, v + 1 ∈ unseen)
    (hn : unseen.Nodup) :
    (∀ o ∈ (g.outlineWithin room unseen (room + 1)).1.occurrences,
      o.index ≠ 0 ∧ ∀ below, o ≠ .expanded 1 below) ∧
      1 ∉ (g.outlineWithin room unseen (room + 1)).2 := by
  induction room generalizing unseen with
  | zero =>
    rw [outlineWithin, if_pos (hu 0 le_rfl), if_neg (by simp [hdeps 0 le_rfl])]
    exact ⟨by simp [Outline.occurrences, Outline.index], hn.not_mem_erase⟩
  | succ room ih =>
    have hrest : ∀ v ≤ room, v + 1 ∈ unseen.erase (room + 2) := fun v hv =>
      (List.mem_erase_of_ne (by omega)).2 (hu v (by omega))
    obtain ⟨hchain, hone⟩ := ih _ (fun v hv => hdeps v (by omega)) hrest (hn.erase _)
    rw [outlineWithin, if_pos (hu (room + 1) le_rfl), hdeps (room + 1) le_rfl]
    refine ⟨fun o ho => ?_, hone⟩
    rcases List.mem_cons.1 ho with rfl | ho
    · exact ⟨by simp [Outline.index], fun below e => by cases e⟩
    · obtain ⟨t, ht, ho⟩ := mem_occurrencesAll.1 ho
      obtain rfl := List.mem_singleton.1 ht
      exact hchain o ho

/-- The first of the others is cut off where the chain of them ends, and said to be shown above
where it comes again. -/
theorem exists_outline_detour : ∃ chain,
    (ofPlan detour).outline 257 = .expanded 257 [chain, .shownAbove 1] ∧
      ∀ o ∈ chain.occurrences, o.index ≠ 0 ∧ ∀ below, o ≠ .expanded 1 below := by
  set nodes := (257 :: (ofPlan detour).weights).eraseDups with hnodes
  have hunseen (v : Nat) (hv : v < 258) : v ∈ nodes := by
    have hweights : (ofPlan detour).weights = List.range 258 := by
      rw [(regular_ofPlan numbered_detour).weights, size_ofPlan, size_detour]
    rw [hnodes, hweights]
    exact List.mem_eraseDups.2 (List.mem_cons_of_mem _ (List.mem_range.2 hv))
  have hlast : (ofPlan detour).directDeps 257 = [256, 1] := directDeps_planOf _ (by omega)
  obtain ⟨hchain, hmet⟩ := outlineWithin_chain (ofPlan detour) 255 (nodes.erase 257)
    (fun v hv => directDeps_detour (by omega))
    (fun v hv => (List.mem_erase_of_ne (by omega)).2 (hunseen _ (by omega)))
    ((nodup_eraseDups _).erase _)
  refine ⟨_, ?_, hchain⟩
  change ((ofPlan detour).outlineWithin (255 + 1) nodes 257).1 = _
  rw [outlineWithin, if_pos (hunseen 257 (by omega)), hlast, Outline.each, Outline.each,
    outlineWithin_of_notMem hmet]
  rfl

/-- **A component that was cut off is not shown later**, where there is room for its dependencies:
the tree says that it is shown above, and does not show them anywhere. -/
theorem detour_hides_components :
    let g := ofPlan detour
    let t := g.outline 257
    (∀ v, ¬ TransGen detour.Needs v v) ∧ g.renderTree 257 = String.join (t.lines g "" true) ∧
    (∃ before, t.occurrences = before ++ [.shownAbove 1] ∧ ∀ below, .expanded 1 below ∉ before) ∧
    g.directDeps 1 = [0] ∧ g.Way 257 0 [257, 1, 0] ∧ ∀ o ∈ t.occurrences, o.index ≠ 0 := by
  intro g t
  obtain ⟨chain, ht, hchain⟩ : ∃ chain, t = .expanded 257 [chain, .shownAbove 1] ∧
      ∀ o ∈ chain.occurrences, o.index ≠ 0 ∧ ∀ below, o ≠ .expanded 1 below :=
    exists_outline_detour
  have hlast : g.directDeps 257 = [256, 1] := directDeps_planOf _ (by omega)
  have hone : g.directDeps 1 = [0] := directDeps_detour (by omega)
  have hoccurs : t.occurrences = (t :: chain.occurrences) ++ [.shownAbove 1] := by
    rw [ht]
    simp [Outline.occurrences, Outline.occurrencesAll]
  refine ⟨?_, renderTree_eq (by rw [size_ofPlan, size_detour]; omega), ⟨_, hoccurs, ?_⟩,
    hone, ⟨rfl, rfl, ?_⟩, ?_⟩
  · exact fun v hv => Nat.lt_irrefl v (lt_of_needs_detour hv)
  · intro below hm
    rcases List.mem_cons.1 hm with h | h
    · rw [ht] at h
      cases h
    · exact (hchain _ h).2 below rfl
  · exact .cons_cons (hlast ▸ by simp) (.cons_cons (hone ▸ by simp) (.singleton _))
  · intro o ho
    rw [hoccurs, List.cons_append, List.mem_cons, List.mem_append, List.mem_singleton] at ho
    rcases ho with e | ho | e
    · rw [e, ht]
      simp [Outline.index]
    · exact (hchain o ho).1
    · rw [e]
      simp [Outline.index]

end Wiring
