import Mathlib.Data.List.Chain
import Mathlib.Logic.Relation
import Wiring.Proofs.Plan.Links
/-!
# Cycles are found exactly

`PlanGraph.detectCycles` walks from each node that is still unvisited. What was visited is on the
path that is being walked, or was left (`PlanGraph.Left`). Of a node on the path, each link is still
to be followed, or leads to a node that was left, or to the next one on the path
(`PlanGraph.Trail`); and what was left leads only to what was left, and is on no cycle
(`PlanGraph.Coloured`). A link back to the path therefore closes a cycle, and if none is met, then
in the end all nodes were left.

`PlanGraph.walk_spec` and `PlanGraph.walkAll_spec` say this of one walk and of all of them, on every
graph, and `cycle_detection_is_exact` what follows for plans. Both walks are total: each turn
visits a node for the first time, or follows a link, or leaves a node.
-/

namespace Wiring

open Relation (TransGen)

namespace PlanGraph

variable {g : PlanGraph} {unvisited roots ns : List Nat} {path below : List Visit} {v w x y : Nat}
  {l : Link} {ls : List Link} {done done' : Nat → Prop} {above : Option Nat} {c : Cycle}

/-! ## What was left -/

/-- A node was visited and left again: it is neither unvisited nor on the path. -/
def Left (g : PlanGraph) (unvisited ns : List Nat) (x : Nat) : Prop :=
  x < g.size ∧ x ∉ unvisited ∧ x ∉ ns

/-- The nodes are unvisited, on the path, or left, and no cycle comes to what was left. -/
structure Coloured (g : PlanGraph) (unvisited ns : List Nat) : Prop where
  /-- Each node is to be visited once. -/
  unique : unvisited.Nodup
  /-- The path does not cross itself. -/
  nodup : ns.Nodup
  /-- It leads through nodes, -/
  inRange : ∀ v ∈ ns, v < g.size
  /-- which were visited. -/
  visited : ∀ v ∈ ns, v ∉ unvisited
  /-- What was left leads only to what was left. -/
  closed : ∀ x y, g.Left unvisited ns x → g.Joins x y → g.Left unvisited ns y
  /-- It is on no cycle. -/
  acyclic : ∀ x, g.Left unvisited ns x → ¬ TransGen g.Joins x x

theorem left_push (hu : unvisited.Nodup) (hv : v ∈ unvisited) :
    g.Left (unvisited.erase v) (v :: ns) x ↔ g.Left unvisited ns x := by
  unfold Left
  rw [hu.mem_erase_iff, List.mem_cons]
  refine and_congr_right fun _ => ?_
  by_cases hx : x = v
  · simp [hx, hv]
  · simp [hx]

theorem left_pop (h : g.Coloured unvisited (v :: ns)) (x : Nat) :
    g.Left unvisited ns x ↔ g.Left unvisited (v :: ns) x ∨ x = v := by
  have hv := List.mem_cons_self (a := v) (l := ns)
  unfold Left
  rw [List.mem_cons]
  by_cases hx : x = v
  · subst hx
    simp [h.inRange x hv, h.visited x hv, (List.nodup_cons.1 h.nodup).1]
  · simp [hx]

/-- A node is visited. -/
theorem Coloured.push (h : g.Coloured unvisited ns) (hv : v ∈ unvisited) (hlt : v < g.size) :
    g.Coloured (unvisited.erase v) (v :: ns) where
  unique := h.unique.erase v
  nodup := List.nodup_cons.2 ⟨fun hn => h.visited v hn hv, h.nodup⟩
  inRange := List.forall_mem_cons.2 ⟨hlt, h.inRange⟩
  visited := List.forall_mem_cons.2 ⟨h.unique.not_mem_erase,
    fun x hx hm => h.visited x hx (List.mem_of_mem_erase hm)⟩
  closed x y hx hxy := by
    rw [left_push h.unique hv] at hx ⊢
    exact h.closed x y hx hxy
  acyclic x hx := h.acyclic x ((left_push h.unique hv).1 hx)

/-- All that is reached from what was left was left. -/
theorem Coloured.left_of_transGen (h : g.Coloured unvisited ns) (hx : g.Left unvisited ns x)
    (hxy : TransGen g.Joins x y) : g.Left unvisited ns y := by
  induction hxy with
  | single hxy => exact h.closed x _ hx hxy
  | tail _ hyz ih => exact h.closed _ _ ih hyz

/-- **A node is left**, when all its links lead to what was left. -/
theorem Coloured.pop (h : g.Coloured unvisited (v :: ns))
    (hv : ∀ w, g.Joins v w → g.Left unvisited (v :: ns) w) : g.Coloured unvisited ns where
  unique := h.unique
  nodup := (List.nodup_cons.1 h.nodup).2
  inRange x hx := h.inRange x (List.mem_cons_of_mem v hx)
  visited x hx := h.visited x (List.mem_cons_of_mem v hx)
  closed x y hx hxy := by
    rw [left_pop h] at hx ⊢
    rcases hx with hx | rfl
    · exact .inl (h.closed x y hx hxy)
    · exact .inl (hv y hxy)
  acyclic x hx hxx := by
    rcases (left_pop h x).1 hx with hx | rfl
    · exact h.acyclic x hx hxx
    · -- A cycle through the node leads through what was left, and so never back to it.
      have hself : g.Left unvisited (x :: ns) x := by
        obtain ⟨w, hw, hwx⟩ := Relation.TransGen.head'_iff.1 hxx
        rcases Relation.reflTransGen_iff_eq_or_transGen.1 hwx with rfl | hwx
        · exact hv x hw
        · exact h.left_of_transGen (hv w hw) hwx
      exact hself.2.2 List.mem_cons_self

/-! ## The path -/

/-- The path leads along links, its end first, and no link of its nodes is forgotten: it is pending,
or leads to what is done, or to the node above. -/
inductive Trail (g : PlanGraph) (done : Nat → Prop) : (above : Option Nat) → List Visit → Prop
  /-- There is no path. -/
  | nil {above : Option Nat} : Trail g done above []
  /-- The path goes on to the node above, if there is one. -/
  | cons {v : Visit} {below : List Visit} {above : Option Nat}
      (hp : ∀ l ∈ v.pending, l ∈ g.linksFrom v.node)
      (hl : ∀ w, g.Joins v.node w →
        (∃ l ∈ v.pending, l.target = w) ∨ done w ∨ above = some w)
      (ha : ∀ w, above = some w → g.Joins v.node w)
      (hb : Trail g done (some v.node) below) : Trail g done above (v :: below)

theorem Trail.mono (h : Trail g done above path) (hd : ∀ x, done x → done' x) :
    Trail g done' above path := by
  induction h with
  | nil => exact .nil
  | cons hp hl ha hb ih =>
    exact .cons hp (fun w hw => (hl w hw).imp_right (Or.imp_left (hd w))) ha ih

/-- The node above is done. -/
theorem Trail.settle (h : Trail g done (some v) path) (hv : done v) :
    Trail g done none path := by
  cases h with
  | nil => exact .nil
  | cons hp hl ha hb =>
    refine .cons hp (fun w hw => ?_) nofun hb
    rcases hl w hw with h | h | h
    · exact .inl h
    · exact .inr (.inl h)
    · cases h
      exact .inr (.inl hv)

/-- The next link leads to what is done. -/
theorem Trail.skip (h : Trail g done none (⟨v, l :: ls⟩ :: below)) (hd : done l.target) :
    Trail g done none (⟨v, ls⟩ :: below) := by
  cases h with
  | cons hp hl ha hb =>
    refine .cons (fun k hk => hp k (List.mem_cons_of_mem l hk)) (fun w hw => ?_) nofun hb
    rcases hl w hw with ⟨k, hk, rfl⟩ | h | h
    · rcases List.mem_cons.1 hk with rfl | hk
      · exact .inr (.inl hd)
      · exact .inl ⟨k, hk, rfl⟩
    · exact .inr (.inl h)
    · cases h

/-- A visit begins with all links of the node. -/
theorem Trail.start (hb : Trail g done (some v) path) : Trail g done none (.start g v :: path) := by
  refine .cons (fun l hl => List.mem_reverse.1 hl) (fun w hw => ?_) nofun hb
  obtain ⟨l, hl, ht⟩ := hw.exists_link
  exact .inl ⟨l, List.mem_reverse.2 hl, ht⟩

/-- The next link is followed. -/
theorem Trail.follow (h : Trail g done none (⟨v, l :: ls⟩ :: below)) :
    Trail g done none (.start g l.target :: ⟨v, ls⟩ :: below) := by
  cases h with
  | cons hp hl ha hb =>
    refine Trail.start (.cons (fun k hk => hp k (List.mem_cons_of_mem l hk)) (fun w hw => ?_)
      (fun w hw => ?_) hb)
    · rcases hl w hw with ⟨k, hk, rfl⟩ | h | h
      · rcases List.mem_cons.1 hk with rfl | hk
        · exact .inr (.inr rfl)
        · exact .inl ⟨k, hk, rfl⟩
      · exact .inr (.inl h)
      · cases h
    · cases hw
      exact joins_of_mem_linksFrom (hp l List.mem_cons_self)

/-- All links of a node on top lead to what is done, if none is to be followed. -/
theorem Trail.done_of_joins (h : Trail g done none (⟨v, []⟩ :: below)) (hw : g.Joins v w) :
    done w := by
  cases h with
  | cons hp hl ha hb =>
    rcases hl w hw with ⟨l, hl, -⟩ | h | h
    · cases hl
    · exact h
    · cases h

theorem Trail.tail (h : Trail g done above (⟨v, ls⟩ :: below)) :
    Trail g done (some v) below := by
  cases h with
  | cons hp hl ha hb => exact hb

theorem Trail.mem_linksFrom (h : Trail g done above (⟨v, l :: ls⟩ :: below)) :
    l ∈ g.linksFrom v := by
  cases h with
  | cons hp hl ha hb => exact hp l List.mem_cons_self

/-- The path leads along links. -/
theorem Trail.isChain (h : Trail g done above path) :
    (path.map Visit.node).IsChain (fun a b => g.Joins b a) := by
  induction h with
  | nil => exact .nil
  | @cons v below above hp hl ha hb ih =>
    rw [List.map_cons, List.isChain_cons]
    refine ⟨fun y hy => ?_, ih⟩
    cases hb with
    | nil => cases hy
    | cons hp' hl' ha' hb' =>
      cases hy
      exact ha' v.node rfl

/-! ## Cycles -/

/-- The nodes are those of a closed walk along links that meets no node twice but for its ends, and
the claim is that of the link that closes it. -/
def Cycle.Closed (g : PlanGraph) (c : Cycle) : Prop :=
  ∃ inner l, c.nodes = inner ++ [l.target] ∧ inner.head? = some l.target ∧
    inner.getLast? = some l.source ∧ inner.Nodup ∧ (inner ++ [l.target]).IsChain g.Joins ∧
    l ∈ g.links ∧ c.claim = l.label

theorem exists_dropWhile_eq_cons (h : v ∈ ns) : ∃ rest, ns.dropWhile (· != v) = v :: rest := by
  induction ns with
  | nil => cases h
  | cons x ns ih =>
    by_cases hx : x = v
    · exact ⟨ns, by simp [hx]⟩
    · obtain ⟨rest, hr⟩ := ih ((List.mem_cons.1 h).resolve_left fun e => hx e.symm)
      exact ⟨rest, by simp [hx, hr]⟩

/-- **A link back to the path closes a cycle.** -/
theorem closed_closeCycle (ht : Trail g done none (⟨v, l :: ls⟩ :: below))
    (hn : (v :: below.map Visit.node).Nodup) (hl : l.target ∈ v :: below.map Visit.node) :
    (closeCycle (⟨v, ls⟩ :: below) l).Closed g := by
  -- Bottom first, the path leads along links to `v`.
  set way := (v :: below.map Visit.node).reverse with hway
  have hchain : way.IsChain g.Joins := List.isChain_reverse.2 ht.isChain
  have hlast : way.getLast? = some v := by simp [hway]
  have hmem : l.target ∈ way := List.mem_reverse.2 hl
  obtain ⟨rest, hr⟩ := exists_dropWhile_eq_cons hmem
  have hsuffix : l.target :: rest <:+ way := hr ▸ List.dropWhile_suffix _
  have hend : (l.target :: rest).getLast? = some v := by
    obtain ⟨before, hb⟩ := hsuffix
    rw [← hb, List.getLast?_append_of_ne_nil _ (List.cons_ne_nil _ _)] at hlast
    exact hlast
  obtain ⟨hlinks, hsource⟩ := List.mem_filter.1 ht.mem_linksFrom
  have hsource : l.source = v := beq_iff_eq.1 hsource
  refine ⟨l.target :: rest, l, ?_, rfl, by rw [hend, hsource], ?_, ?_, hlinks, rfl⟩
  · rw [← hr]
    rfl
  · exact hsuffix.sublist.nodup (List.nodup_reverse.2 hn)
  · refine List.isChain_append.2 ⟨hchain.suffix hsuffix, List.isChain_singleton _, ?_⟩
    intro x hx y hy
    rw [hend] at hx
    cases hx
    cases hy
    exact joins_of_mem_linksFrom ht.mem_linksFrom

/-- A closed walk comes back to where it began. -/
theorem Cycle.Closed.exists_transGen (h : c.Closed g) : ∃ v, TransGen g.Joins v v := by
  obtain ⟨inner, l, -, hhead, -, -, hchain, -⟩ := h
  obtain ⟨rest, rfl⟩ := List.head?_eq_some_iff.1 hhead
  have hpath : ((l.target :: rest) ++ [l.target]).Pairwise (TransGen g.Joins) :=
    (hchain.imp fun _ _ => TransGen.single).pairwise
  rw [List.cons_append, List.pairwise_cons] at hpath
  exact ⟨l.target, hpath.1 l.target List.mem_concat_self⟩

/-! ## Walks -/

/-- **A walk leaves all nodes that it visits, or meets a cycle.** -/
theorem walk_spec (hg : g.Regular) (hc : g.Coloured unvisited (path.map Visit.node))
    (ht : Trail g (g.Left unvisited (path.map Visit.node)) none path) :
    (∃ rest, g.walk unvisited path = .ok rest ∧ rest ⊆ unvisited ∧ g.Coloured rest []) ∨
      ∃ c, g.walk unvisited path = .error c ∧ c.Closed g := by
  fun_induction walk g unvisited path with
  | case1 unvisited => exact .inl ⟨unvisited, rfl, List.Subset.refl _, hc⟩
  | case2 unvisited v below ih =>
    have hpop := left_pop hc
    refine ih (hc.pop fun w hw => ht.done_of_joins hw) ?_
    exact (ht.tail.mono fun x hx => (hpop x).2 (.inl hx)).settle ((hpop v).2 (.inr rfl))
  | case3 unvisited v l ls below hl ih =>
    have hlt : l.target < g.size := (hg.links l (List.mem_of_mem_filter ht.mem_linksFrom)).2
    rcases ih (hc.push hl hlt) (ht.follow.mono fun x hx => (left_push hc.unique hl).2 hx) with
      ⟨rest, hw, hsub, hrest⟩ | hcycle
    · exact .inl ⟨rest, hw, fun x hx => List.mem_of_mem_erase (hsub hx), hrest⟩
    · exact .inr hcycle
  | case4 unvisited v l ls below hl hb =>
    have hb : v = l.target ∨ l.target ∈ below.map Visit.node := by simpa using hb
    rw [if_pos (hb.imp_right List.contains_iff_mem.2)]
    exact .inr ⟨_, rfl, closed_closeCycle ht hc.nodup (List.mem_cons.2 (hb.imp_left Eq.symm))⟩
  | case5 unvisited v l ls below hl hb ih =>
    have hlt : l.target < g.size := (hg.links l (List.mem_of_mem_filter ht.mem_linksFrom)).2
    have hb : ¬ (v = l.target ∨ l.target ∈ below.map Visit.node) := by simpa using hb
    have hleft : g.Left unvisited (v :: below.map Visit.node) l.target :=
      ⟨hlt, hl, fun hm => hb ((List.mem_cons.1 hm).imp_left Eq.symm)⟩
    rw [if_neg fun h => hb (h.imp_right List.contains_iff_mem.1)]
    exact ih hc (ht.skip hleft)

/-- **The walks from some roots visit all of them, or meet a cycle.** -/
theorem walkAll_spec (hg : g.Regular) (hc : g.Coloured unvisited [])
    (hr : ∀ v ∈ roots, v < g.size) :
    (g.walkAll unvisited roots = .ok () ∧
      ∃ rest, rest ⊆ unvisited ∧ g.Coloured rest [] ∧ ∀ v ∈ roots, v ∉ rest) ∨
      ∃ c, g.walkAll unvisited roots = .error c ∧ c.Closed g := by
  induction roots generalizing unvisited with
  | nil => exact .inl ⟨rfl, unvisited, List.Subset.refl _, hc, by simp⟩
  | cons v roots ih =>
    obtain ⟨hv, hr⟩ := List.forall_mem_cons.1 hr
    unfold PlanGraph.walkAll
    split
    · next hm =>
      have hstart : Trail g (g.Left (unvisited.erase v) [v]) none [.start g v] :=
        .start .nil
      have hpush : g.Coloured (unvisited.erase v) ([Visit.start g v].map Visit.node) :=
        hc.push hm hv
      rcases walk_spec hg hpush hstart with
        ⟨rest, hw, hsub, hrest⟩ | ⟨c, hw, hcycle⟩
      · rw [hw]
        rcases ih hrest hr with ⟨hall, rest', hsub', hrest', hroots⟩ | hcycle
        · refine .inl ⟨hall, rest', fun x hx => List.mem_of_mem_erase (hsub (hsub' hx)), hrest', ?_⟩
          exact List.forall_mem_cons.2
            ⟨fun h => hc.unique.not_mem_erase (hsub (hsub' h)), hroots⟩
        · exact .inr hcycle
      · rw [hw]
        exact .inr ⟨c, rfl, hcycle⟩
    · next hm =>
      rcases ih hc hr with ⟨hall, rest, hsub, hrest, hroots⟩ | hcycle
      · refine .inl ⟨hall, rest, hsub, hrest, ?_⟩
        exact List.forall_mem_cons.2 ⟨fun h => hm (hsub h), hroots⟩
      · exact .inr hcycle

/-- In the beginning nothing was visited. -/
theorem coloured_range (g : PlanGraph) : g.Coloured (List.range g.size) [] where
  unique := List.nodup_range
  nodup := .nil
  inRange := by simp
  visited := by simp
  closed x y hx := absurd (List.mem_range.2 hx.1) hx.2.1
  acyclic x hx := absurd (List.mem_range.2 hx.1) hx.2.1

/-- **Cycle detection is exact**: it succeeds if there is no cycle, and fails with one otherwise. -/
theorem Regular.detectCycles_spec (hg : g.Regular) :
    (g.detectCycles = .ok () ∧ ∀ v, ¬ TransGen g.Joins v v) ∨
      ∃ c : Cycle, g.detectCycles = .error (c.toError g) ∧ c.Closed g := by
  unfold detectCycles
  rcases walkAll_spec hg (coloured_range g) fun v hv => List.mem_range.1 hv with
    ⟨hall, rest, -, hrest, hroots⟩ | ⟨c, hall, hcycle⟩
  · rw [hall]
    refine .inl ⟨rfl, fun v hv => ?_⟩
    obtain ⟨w, hvw, -⟩ := Relation.TransGen.head'_iff.1 hv
    have hlt : v < g.size := (hvw.lt hg).1
    exact hrest.acyclic v ⟨hlt, hroots v (List.mem_range.2 hlt), by simp⟩ hv
  · rw [hall]
    exact .inr ⟨c, rfl, hcycle⟩

/-- There is no cycle exactly if none is found. -/
theorem Regular.detectCycles_eq_ok_iff (hg : g.Regular) :
    g.detectCycles = .ok () ↔ ∀ v, ¬ TransGen g.Joins v v := by
  rcases hg.detectCycles_spec with ⟨hok, hacyclic⟩ | ⟨c, herr, hcycle⟩
  · exact ⟨fun _ => hacyclic, fun _ => hok⟩
  · rw [herr]
    refine ⟨nofun, fun h => ?_⟩
    obtain ⟨v, hv⟩ := hcycle.exists_transGen
    exact absurd hv (h v)

end PlanGraph

/-! ## Plans -/

open PlanGraph

/-- **Cycle detection over a plan is exact.** If the components of a plan stand at their indices,
whatever their edges point to, then the detection succeeds exactly if no component needs itself,
directly or through others. If it fails, then with the names and types of the components on a closed
walk, on which each needs the next, and which meets none twice but for its ends; and with the claim
that is stored for the link that closes the walk, which is the first for which the last component
needs that at which the walk began. -/
theorem cycle_detection_is_exact (p : Plan) (h : p.Numbered) :
    ((ofPlan p).detectCycles = .ok () ↔ ∀ i, ¬ TransGen p.Needs i i) ∧
    ∀ e, (ofPlan p).detectCycles = .error e → ∃ inner u v c,
      e = .circular c.render ((inner ++ [v]).map (ofPlan p).label) ∧
      inner.head? = some v ∧ inner.getLast? = some u ∧ inner.Nodup ∧
      (inner ++ [v]).IsChain p.Needs ∧ ⟨u, v, c.render⟩ ∈ (ofPlan p).links ∧
      p.claimBehind? u v = some c := by
  have hg := regular_ofPlan h
  rw [← joins_ofPlan h]
  refine ⟨hg.detectCycles_eq_ok_iff, fun e he => ?_⟩
  rcases hg.detectCycles_spec with ⟨hok, -⟩ | ⟨cycle, herr, hcycle⟩
  · rw [hok] at he
    cases he
  · rw [herr] at he
    cases he
    obtain ⟨inner, l, hnodes, hhead, hlast, hnodup, hchain, hl, hclaim⟩ := hcycle
    obtain ⟨c, hc, hlabel⟩ := label_ofPlan h hl
    refine ⟨inner, l.source, l.target, c, ?_, hhead, hlast, hnodup, hchain, ?_, hc⟩
    · simp only [Cycle.toError, hclaim, hlabel, hnodes, hg.weight]
    · rw [← hlabel]
      exact hl

/-- A server needs a cache and something outside the plan, the cache a store, and the store the
cache, twice. -/
def looped : Plan where
  components :=
    [{ index := 0, name := "server", origin := .annotated, type := .named "Server" [],
       dependencies := [.allOf { type := .named "Plugin" [], kind := .all } [⟨9, false⟩],
         .reference { type := .named "Cache" [] } ⟨1, false⟩] },
     { index := 1, name := "cache", origin := .annotated, type := .named "Cache" [],
       dependencies := [.valueOf { type := .named "Store" [], kind := .valueOf } ⟨2, false⟩] },
     { index := 2, name := "store", origin := .annotated, type := .named "Store" [],
       dependencies := [.reference { type := .named "Cache" [] } ⟨1, false⟩,
         .promiseOf { type := .named "Cache" [], kind := .promiseOf } ⟨1, false⟩] }]
  rounds := 1

theorem cycle_detection_is_exact_looped : looped.Numbered ∧ TransGen looped.Needs 1 1 ∧
    ∃ e, (ofPlan looped).detectCycles = .error e ∧ ∃ inner u v c,
      e = .circular c.render ((inner ++ [v]).map (ofPlan looped).label) ∧
      inner.head? = some v ∧ inner.getLast? = some u ∧ (inner ++ [v]).IsChain looped.Needs ∧
      looped.claimBehind? u v = some c := by
  have hn : looped.Numbered := by decide +kernel
  have hcache : looped.Needs 1 2 := Plan.mem_targetsOf.1 (by decide +kernel)
  have hstore : looped.Needs 2 1 := Plan.mem_targetsOf.1 (by decide +kernel)
  have hcycle : TransGen looped.Needs 1 1 := .tail (.single hcache) hstore
  obtain ⟨hok, herr⟩ := cycle_detection_is_exact looped hn
  cases he : (ofPlan looped).detectCycles with
  | ok x => exact absurd hcycle (hok.1 he 1)
  | error e =>
    obtain ⟨inner, u, v, c, hchain, hhead, hlast, -, hwalk, -, hc⟩ := herr e he
    exact ⟨hn, hcycle, e, rfl, inner, u, v, c, hchain, hhead, hlast, hwalk, hc⟩

end Wiring
