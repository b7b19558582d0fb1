import Mathlib.Data.List.Dedup
import Wiring.Manifest.Rounds
import Wiring.Proofs.Resolution.Repetition
/-!
# The rounds of a manifest reach a fixed point

An extension of a manifest that generates its component asks for another round, and from then on the
component is found. So of the rounds that follow one another, each makes one more component visible,
or else the same extension asks again although its component is there already. Then nothing changes
any more: the next round finds the same drafts, and ends with the same demand, for ever.

With `n` names of generating extensions, `n + 1` rounds therefore decide everything
(`Manifest.rounds_reach_fixed_point`).
-/

namespace Wiring

/-! ## Sets of labels -/

namespace Tags

theorem insertLabel_of_mem {x : String} {l : List String} (hl : l.Pairwise (· < ·)) (hx : x ∈ l) :
    insertLabel x l = l := by
  induction l with
  | nil => cases hx
  | cons y rest ih =>
    obtain ⟨hy, hrest⟩ := List.pairwise_cons.1 hl
    rcases List.mem_cons.1 hx with rfl | hx
    · simp [insertLabel]
    · have hlt := hy x hx
      have hnlt : ¬ x < y := fun h => String.lt_irrefl _ (String.lt_trans h hlt)
      have hne : x ≠ y := by
        rintro rfl
        exact hnlt hlt
      simp [insertLabel, hnlt, hne, ih hrest hx]

theorem length_insertLabel {x : String} {l : List String} (hx : x ∉ l) :
    (insertLabel x l).length = l.length + 1 := by
  induction l with
  | nil => rfl
  | cons y rest ih =>
    obtain ⟨hne, hx⟩ := List.ne_and_not_mem_of_not_mem_cons hx
    by_cases hlt : x < y
    · simp [insertLabel, hlt]
    · simp [insertLabel, hlt, hne, ih hx]

theorem insert_of_mem {t : Tags} {x : String} (h : x ∈ t.labels) : t.insert x = t := by
  obtain ⟨l, hl⟩ := t
  simp only [insert, insertLabel_of_mem hl h]

theorem nodup_labels (t : Tags) : t.labels.Nodup :=
  t.sorted.imp fun h => by
    rintro rfl
    exact String.lt_irrefl _ h

end Tags

namespace Manifest

open Resolver

variable {m : Manifest} {r : Resolver} {fuel j k : Nat} {memory : Tags}
  {last : Option RestartRequest} {q : RestartRequest} {x : String}

/-- The names of the extensions that generate their components. -/
def generators (m : Manifest) : List String :=
  ((m.extensions.filter (·.generate)).map (·.name)).dedup

/-! ## The extensions of a manifest -/

theorem timeless_of_toExtensions (hr : r.extensions = m.toExtensions) : r.Timeless := by
  intro e he c d k l
  rw [hr] at he
  obtain ⟨spec, -, rfl⟩ := List.mem_map.1 he
  rfl

theorem reliable_of_toExtensions (hr : r.extensions = m.toExtensions) : r.Reliable := by
  intro e he c d k i
  rw [hr] at he
  obtain ⟨spec, -, rfl⟩ := List.mem_map.1 he
  exact nofun

/-- The extension generates its component, and answers the claim. -/
structure Generates (m : Manifest) (q : RestartRequest) (e : ExtensionSpec) : Prop where
  /-- It is an extension of the manifest. -/
  mem : e ∈ m.extensions
  /-- It generates its component. -/
  generate : e.generate = true
  /-- It bears the name. -/
  name_eq : e.name = q.extension
  /-- It answers the claim. -/
  answers : e.answers q.claim = true

/-- **Only extensions that generate their components demand another round.** -/
theorem exists_generates (hr : r.extensions = m.toExtensions) (h : r.Asked q) :
    ∃ e, m.Generates q e := by
  obtain ⟨e, he, hname, d, k, ha⟩ := h
  rw [hr] at he
  obtain ⟨spec, hmem, rfl⟩ := List.mem_map.1 he
  have ha : (if !spec.answers q.claim then Answer.noOpinion
      else if spec.generate then .newRound else .supply spec.toDraft) = .newRound :=
    Except.ok.inj ha
  split at ha
  · cases ha
  · next hans =>
    split at ha
    · next hgen => exact ⟨spec, hmem, hgen, hname, by simpa using hans⟩
    · cases ha

theorem Generates.mem_generators {e : ExtensionSpec} (h : m.Generates q e) :
    q.extension ∈ m.generators := by
  rw [generators, List.mem_dedup, ← h.name_eq]
  exact List.mem_map_of_mem (List.mem_filter.2 ⟨h.mem, h.generate⟩)

theorem Generates.prepare {e : ExtensionSpec} (h : m.Generates q e) :
    m.discoverer.prepare memory q = memory.insert q.extension := by
  have hany : (m.extensions.any fun e => e.name == q.extension && e.generate) = true :=
    List.any_eq_true.2 ⟨e, h.mem, by simp [h.name_eq, h.generate]⟩
  exact if_pos hany

/-- The component of an extension whose name is remembered is found. -/
theorem Generates.mem_discover {e : ExtensionSpec} (h : m.Generates q e)
    (hq : q.extension ∈ memory.labels) : e.toDraft ∈ m.discoverer.discover memory := by
  refine List.mem_append_right _ (List.mem_map_of_mem (List.mem_filter.2 ⟨h.mem, ?_⟩))
  rw [h.name_eq]
  exact List.contains_iff_mem.2 hq

/-! ## What is remembered -/

/-- The rounds of the manifest, of which no number is limited, come to this. -/
abbrev ComesTo (m : Manifest) (r : Resolver) (fuel : Nat) :
    Nat → Tags → Option RestartRequest → Prop :=
  Resolver.ComesTo r fuel m.discoverer ∅

/-- A round is tried, in which the names are remembered, and ends with the demand. -/
structure Demands (m : Manifest) (r : Resolver) (fuel k : Nat) (memory : Tags)
    (q : RestartRequest) : Prop where
  /-- All rounds before demand another one. -/
  comesTo : ∃ last, m.ComesTo r fuel k memory last
  /-- And so does this one. -/
  resolve : r.resolve fuel (m.discoverer.discover memory) k = .ok (.restart q)

theorem Demands.exists_generates (hr : r.extensions = m.toExtensions)
    (h : m.Demands r fuel k memory q) : ∃ e, m.Generates q e :=
  Manifest.exists_generates hr (asked_of_resolve h.resolve)

/-- What is remembered are names of generating extensions. -/
theorem subset_generators (hr : r.extensions = m.toExtensions)
    (h : m.ComesTo r fuel k memory last) : ∀ x ∈ memory.labels, x ∈ m.generators := by
  induction h with
  | start => exact fun x hx => nomatch hx
  | restart h hq ih =>
    obtain ⟨e, he⟩ := Manifest.exists_generates hr (asked_of_resolve hq)
    rw [he.prepare]
    intro x hx
    rcases Tags.mem_labels_insert.1 hx with rfl | hx
    · exact he.mem_generators
    · exact ih x hx

/-- What is remembered was demanded before. -/
theorem exists_demands (hr : r.extensions = m.toExtensions)
    (h : m.ComesTo r fuel k memory last) (hx : x ∈ memory.labels) :
    ∃ j < k, ∃ memory' q, m.Demands r fuel j memory' q ∧ q.extension = x := by
  induction h with
  | start => cases hx
  | @restart k memory last q h hq ih =>
    obtain ⟨e, he⟩ := Manifest.exists_generates hr (asked_of_resolve hq)
    rw [he.prepare] at hx
    rcases Tags.mem_labels_insert.1 hx with rfl | hx
    · exact ⟨k, Nat.lt_succ_self k, memory, q, ⟨⟨last, h⟩, hq⟩, rfl⟩
    · obtain ⟨j, hj, hd⟩ := ih hx
      exact ⟨j, Nat.lt_succ_of_lt hj, hd⟩

/-- **Each round makes one more component visible**, or one demands what is there already. -/
theorem length_labels_or_exists_demands (hr : r.extensions = m.toExtensions)
    (h : m.ComesTo r fuel k memory last) : memory.labels.length = k ∨
      ∃ j < k, ∃ memory' q, m.Demands r fuel j memory' q ∧ q.extension ∈ memory'.labels := by
  induction h with
  | start => exact .inl rfl
  | @restart k memory last q h hq ih =>
    rcases ih with hlen | ⟨j, hj, hd⟩
    · by_cases hmem : q.extension ∈ memory.labels
      · exact .inr ⟨k, Nat.lt_succ_self k, memory, q, ⟨⟨last, h⟩, hq⟩, hmem⟩
      · obtain ⟨e, he⟩ := Manifest.exists_generates hr (asked_of_resolve hq)
        rw [he.prepare, Tags.insert]
        exact .inl ((Tags.length_insertLabel hmem).trans (congrArg (· + 1) hlen))
    · exact .inr ⟨j, Nat.lt_succ_of_lt hj, hd⟩

/-! ## The fixed point -/

/-- An extension demands another round again: one that it demanded before has made its component
visible. -/
def AsksAgain (m : Manifest) (r : Resolver) (fuel : Nat) (q : RestartRequest) : Prop :=
  ∃ j memory, m.Demands r fuel j memory q ∧
    (∃ i < j, ∃ memory' q', m.Demands r fuel i memory' q' ∧ q'.extension = q.extension) ∧
    ∃ e, m.Generates q e ∧ e.toDraft ∈ m.discoverer.discover memory

theorem asksAgain_of_mem_labels (hr : r.extensions = m.toExtensions)
    (h : m.Demands r fuel j memory q) (hq : q.extension ∈ memory.labels) :
    m.AsksAgain r fuel q := by
  obtain ⟨last, hc⟩ := h.comesTo
  obtain ⟨e, he⟩ := h.exists_generates hr
  exact ⟨j, memory, h, exists_demands hr hc hq, e, he, he.mem_discover hq⟩

/-- A demand for what is there already is repeated for ever. -/
theorem Demands.forever (hr : r.extensions = m.toExtensions) (h : m.Demands r fuel j memory q)
    (hq : q.extension ∈ memory.labels) (i : Nat) :
    m.ComesTo r fuel (j + i + 1) memory (some (q.atRound (j + i))) := by
  obtain ⟨last, hc⟩ := h.comesTo
  obtain ⟨e, he⟩ := h.exists_generates hr
  refine hc.forever (timeless_of_toExtensions hr) h.resolve (fun l => ?_) i
  have hsame : m.discoverer.prepare memory (q.atRound l) = m.discoverer.prepare memory q := rfl
  rw [hsame, he.prepare, Tags.insert_of_mem hq]

/-- If all of the first rounds demand another one, then one of them demands what is there already:
there are fewer names than rounds. -/
theorem exists_demands_again (hr : r.extensions = m.toExtensions)
    (h : m.ComesTo r fuel (m.generators.length + 1) memory last) :
    ∃ j ≤ m.generators.length, ∃ memory' q,
      m.Demands r fuel j memory' q ∧ q.extension ∈ memory'.labels := by
  rcases length_labels_or_exists_demands hr h with hlen | ⟨j, hj, hd⟩
  · have hle := (memory.nodup_labels.subperm (subset_generators hr h)).length_le
    omega
  · exact ⟨j, Nat.le_of_lt_succ hj, hd⟩

/-- What comes of the manifest if this many rounds are allowed. -/
def outcome (m : Manifest) (r : Resolver) (fuel limit : Nat) : Except Interrupt Plan :=
  ((r.withRounds limit).drive fuel m.discoverer ∅).1

/-- A demand for what is there already exhausts the rounds, whatever their number is. -/
theorem Demands.outcome_eq (hr : r.extensions = m.toExtensions) (h : m.Demands r fuel j memory q)
    (hq : q.extension ∈ memory.labels) (hk : j < k) : m.outcome r fuel k =
      .error (.failure (.roundLimit q.claim.render q.extension k)) := by
  obtain ⟨i, rfl⟩ : ∃ i, k = j + i + 1 := ⟨k - j - 1, by omega⟩
  exact ((h.forever hr hq i).withRounds (timeless_of_toExtensions hr)).drive_exhausted rfl

/-- **A manifest reaches a fixed point after one round more than it has names of generating
extensions.** Whatever larger number of rounds is allowed, the outcome is the same as with these:
a plan that one of these rounds gives, an error that one of them gives, or that the rounds are
exhausted by the same demand. The last is only so if an extension demands another round again,
although its component is visible already. -/
theorem rounds_reach_fixed_point (m : Manifest) (r : Resolver) (fuel : Nat)
    (hr : r.extensions = m.toExtensions) :
    (∃ k ≤ m.generators.length, ∃ memory last, m.ComesTo r fuel k memory last ∧
      ((∃ p, r.resolve fuel (m.discoverer.discover memory) k = .ok (.resolved p) ∧
          p.rounds = k + 1 ∧
          ∀ limit, m.generators.length + 1 ≤ limit → m.outcome r fuel limit = .ok p) ∨
        ∃ i, r.resolve fuel (m.discoverer.discover memory) k = .error i ∧
          (∀ claim name l, i ≠ .failure (.roundLimit claim name l)) ∧
          ∀ limit, m.generators.length + 1 ≤ limit → m.outcome r fuel limit = .error i)) ∨
    ∃ q, m.AsksAgain r fuel q ∧ ∀ limit, m.generators.length + 1 ≤ limit →
      m.outcome r fuel limit =
        .error (.failure (.roundLimit q.claim.render q.extension limit)) := by
  have ht : r.Timeless := timeless_of_toExtensions hr
  rcases comesTo_cases r fuel m.discoverer ∅ (m.generators.length + 1) with
    ⟨k, hk, memory, last, hc, hend⟩ | ⟨memory, last, hc⟩
  · have houtcome {x : Except Interrupt Plan} (l : Nat) (hl : m.generators.length + 1 ≤ l)
        (hx : (∃ i, x = .error i ∧ r.resolve fuel (m.discoverer.discover memory) k = .error i) ∨
          ∃ p, x = .ok p ∧
            r.resolve fuel (m.discoverer.discover memory) k = .ok (.resolved p)) :
        m.outcome r fuel l = x := by
      rw [← resolve_withRounds (m := l) ht] at hx
      exact (hc.withRounds ht).drive_eq (Nat.lt_of_lt_of_le hk hl) hx
    refine .inl ⟨k, Nat.le_of_lt_succ hk, memory, last, hc, ?_⟩
    rcases hend with ⟨i, hi⟩ | ⟨p, hp⟩
    · refine .inr ⟨i, hi, ?_, fun l hl => houtcome l hl (.inl ⟨i, rfl, hi⟩)⟩
      -- No single round counts the rounds.
      rintro claim name l rfl
      rcases closesCycle_of_resolve_error (reliable_of_toExtensions hr) hi rfl with
        ⟨h, -⟩ | ⟨_, _, h⟩ | h <;> cases h
    · exact .inl ⟨p, hp, rounds_of_resolve ht hp, fun l hl => houtcome l hl (.inr ⟨p, rfl, hp⟩)⟩
  · obtain ⟨j, hj, memory', q, hd, hq⟩ := exists_demands_again hr hc
    exact .inr ⟨q, asksAgain_of_mem_labels hr hd hq,
      fun l hl => hd.outcome_eq hr hq (by omega)⟩

/-- A schema is generated, and a server needs it. -/
def generated : Manifest where
  components := [{ name := "server", type := .named "Server" [],
                   claims := [{ type := .named "Schema" [] }], isRoot := true }]
  extensions := [{ name := "codegen", pattern := .named "Schema" [], generate := true,
                   component := { name := "schema", type := .named "Schema" [] } }]

/-- A schema is needed, but a table is generated. -/
def stuck : Manifest where
  components := generated.components
  extensions := [{ name := "codegen", pattern := .named "Schema" [], generate := true,
                   component := { name := "table", type := .named "Table" [] } }]

/-- Whether it is that the rounds are exhausted. -/
def ranOut : Error → Bool
  | .roundLimit _ _ _ => true
  | _ => false

theorem rounds_reach_fixed_point_codegen :
    (∃ p, p.rounds = 2 ∧ ∀ limit, 2 ≤ limit →
      generated.outcome (generated.resolver {}) 50 limit = .ok p) ∧
    ∃ q, stuck.AsksAgain (stuck.resolver {}) 50 q ∧ ∀ limit, 2 ≤ limit →
      stuck.outcome (stuck.resolver {}) 50 limit =
        .error (.failure (.roundLimit q.claim.render q.extension limit)) := by
  constructor
  · have hrounds : (generated.outcome (generated.resolver {}) 50 2).toOption.map (·.rounds) =
        some 2 := by decide +kernel
    rcases rounds_reach_fixed_point generated (generated.resolver {}) 50 rfl with
      ⟨k, -, _, _, -, ⟨p, -, -, h⟩ | ⟨i, -, -, h⟩⟩ | ⟨q, -, h⟩
    · rw [h 2 le_rfl] at hrounds
      exact ⟨p, Option.some.inj hrounds, h⟩
    · rw [h 2 le_rfl] at hrounds
      cases hrounds
    · rw [h 2 le_rfl] at hrounds
      cases hrounds
  · obtain ⟨e, he, hlimit⟩ := exists_failure (x := stuck.outcome (stuck.resolver {}) 50 2)
      ranOut (by decide +kernel)
    rcases rounds_reach_fixed_point stuck (stuck.resolver {}) 50 rfl with
      ⟨k, -, _, _, -, ⟨p, -, -, h⟩ | ⟨i, -, hi, h⟩⟩ | h
    · rw [h 2 le_rfl] at he
      cases he
    · rw [h 2 le_rfl] at he
      cases e <;> cases hlimit
      exact absurd (Except.error.inj he) (hi _ _ _)
    · exact h

end Manifest

end Wiring
