import Wiring.Proofs.Resolution.Cycles
import Wiring.Proofs.Resolution.Labels
/-!
# Repeating rounds

`Resolver.drive` repeats rounds as long as they demand another one. `Resolver.ComesTo` says what is
remembered before a round, if all rounds before it demanded another; with it, the loop is described
by what happens first: a round that ends otherwise, or that the rounds are exhausted
(`Resolver.ComesTo.drive_eq`, `Resolver.ComesTo.drive_exhausted`).

Another round is demanded in some step of the run (`Resolver.exists_demand_of_resolve`), and only by
an extension that asks for one (`Resolver.asked_of_resolve`).
-/

namespace Wiring

namespace Resolver

variable {r : Resolver} {fuel n k m round : Nat} {goal : Option Claim} {s : State} {p : Source}
  {c : Claim} {q : RestartRequest} {drafts : List Draft}

/-! ## Who demands another round -/

/-- An extension asks for another round for the claim of the request. -/
def Asked (r : Resolver) (q : RestartRequest) : Prop :=
  ∃ e ∈ r.extensions, e.name = q.extension ∧ ∃ d k, e.answer q.claim d k = .ok .newRound

theorem exists_of_consult {es : List Extension} {d : Declaration} {o : Extension.Opinion}
    (h : Extension.consult es c d round = .ok (some o)) :
    ∃ e ∈ es, e.name = o.extension ∧ e.answer c d round = .ok o.answer := by
  induction es with
  | nil => cases h
  | cons e es ih =>
    obtain ⟨a, ha, h⟩ := bind_eq_ok.1 h
    have hrest (h : Extension.consult es c d round = .ok (some o)) :
        ∃ x ∈ e :: es, x.name = o.extension ∧ x.answer c d round = .ok o.answer := by
      obtain ⟨x, hx, h⟩ := ih h
      exact ⟨x, List.mem_cons_of_mem _ hx, h⟩
    cases a with
    | noOpinion => exact hrest h
    | supply | newRound =>
      cases h
      exact ⟨e, List.mem_cons_self, rfl, ha⟩

theorem asked_of_extensions (h : r.fromExtensions n round s p c = .ok (some (.restart q))) :
    r.Asked q ∧ q.claim = c := by
  obtain ⟨o, ho, h⟩ := bind_eq_ok.1 h
  split at h
  · obtain ⟨d, ha, hd⟩ := bind_eq_ok.1 h
    obtain ⟨_, _, e, -⟩ := accepted ha
    rw [e] at hd
    cases hd
  · cases h
    obtain ⟨e, he, hname, ha⟩ := exists_of_consult (checked_eq_ok.1 ho)
    exact ⟨⟨e, he, hname, _, _, ha⟩, rfl⟩
  · cases h
  · cases h

theorem asked_of_decide (h : r.decide n round s p c = .ok (.restart q)) :
    r.Asked q ∧ q.claim = c := by
  rcases cases_of_decide h with h | ⟨-, h | ⟨-, h | h⟩⟩
  · cases direct_of_declarations h
  · rcases direct_or_fork_of_templates h with e | ⟨_, -, e⟩ <;> cases e
  · cases direct_of_nothing h
  · exact asked_of_extensions h

/-- An extension asks for another round for the claim that is worked on. -/
theorem asked_of_step (h : r.step n round goal s = .ok (.restart q)) :
    r.Asked q ∧ ∃ f below cs, s.stack = .component f :: below ∧ f.pending = q.claim :: cs := by
  rcases decide_of_step h with e | ⟨_, e | e⟩ | ⟨f, below, c, cs, d, hs, hf, hd, he⟩
  · cases e
  · cases e
  · cases e
  · rcases he with ⟨_, _, -, e⟩ | ⟨q, rfl, e⟩
    · cases e
    · cases e
      obtain ⟨ha, rfl⟩ := asked_of_decide hd
      exact ⟨ha, f, below, cs, hs, hf⟩

/-- A run that ends with the demand for another round passes through a state in which a step
demands it. -/
theorem exists_demand_of_run (hs : Reachable r drafts round goal s)
    (h : r.run round n goal s = .ok (.restart q)) :
    ∃ m goal t, Reachable r drafts round goal t ∧ r.step m round goal t = .ok (.restart q) := by
  induction n generalizing goal s with
  | zero => cases h
  | succ n ih =>
    unfold run at h
    split at h
    · cases h
    · cases h
    · cases h
    · next hp =>
      cases h
      exact ⟨n, goal, s, hs, hp⟩
    · next t hp => exact ih (hs.next hp) h
    · next f t hp =>
      split at h
      · next hl =>
        split at h
        · cases h
        · next he =>
          cases h
          obtain ⟨draft, hd, name, b, ho, hb⟩ := exists_branch_of_restart he
          exact ih (hs.branch hp hl hd ho) hb
        · next found he =>
          split at h
          · next ht => exact ih (hs.adopt hp hl he ht) h
          · cases h
      · cases h

theorem exists_demand_of_resolve (h : r.resolve n drafts round = .ok (.restart q)) :
    ∃ m goal t, Reachable r drafts round goal t ∧ r.step m round goal t = .ok (.restart q) := by
  obtain ⟨c, hc, h⟩ := bind_eq_ok.1 h
  split at h <;> rename_i hr
  · cases h
  · obtain ⟨e, he, h⟩ := bind_eq_ok.1 h
    cases e with
    | finished | satisfied => cases h
    | restart q' =>
      cases h
      exact exists_demand_of_run (.start hc (by simpa using hr)) he

/-- **Another round is demanded only by an extension that asks for one.** -/
theorem asked_of_resolve (h : r.resolve n drafts round = .ok (.restart q)) : r.Asked q := by
  obtain ⟨m, goal, t, -, hp⟩ := exists_demand_of_resolve h
  exact (asked_of_step hp).1

/-! ## The loop -/

variable {σ : Type} {source : Discoverer σ} {memory memory' : σ} {last : Option RestartRequest}

/-- All of the first `k` rounds demand another one, and this is what is remembered then, and the
last demand. -/
inductive ComesTo (r : Resolver) (fuel : Nat) (source : Discoverer σ) (memory : σ) :
    Nat → σ → Option RestartRequest → Prop
  /-- No round was tried. -/
  | start : ComesTo r fuel source memory 0 memory none
  /-- One more round demands another. -/
  | restart {k : Nat} {memory' : σ} {last : Option RestartRequest} {q : RestartRequest}
      (h : ComesTo r fuel source memory k memory' last)
      (hq : r.resolve fuel (source.discover memory') k = .ok (.restart q)) :
      ComesTo r fuel source memory (k + 1) (source.prepare memory' q) (some q)

theorem ComesTo.driveFrom (h : ComesTo r fuel source memory k memory' last)
    (hk : k ≤ r.settings.maxRounds) : r.drive fuel source memory =
      r.driveFrom fuel source (r.settings.maxRounds - k) last memory' := by
  induction h with
  | start => rfl
  | @restart k memory' last q h hq ih =>
    obtain ⟨left, hl⟩ : ∃ left, r.settings.maxRounds - k = left + 1 :=
      ⟨r.settings.maxRounds - k - 1, by omega⟩
    have hround : r.settings.maxRounds - (left + 1) = k := by omega
    have hleft : r.settings.maxRounds - (k + 1) = left := by omega
    rw [ih (by omega), hl, hleft, Resolver.driveFrom, hround, hq]

/-- **A round that demands no other is the last.** -/
theorem ComesTo.drive_eq {x : Except Interrupt Plan}
    (h : ComesTo r fuel source memory k memory' last) (hk : k < r.settings.maxRounds)
    (hx : (∃ i, x = .error i ∧ r.resolve fuel (source.discover memory') k = .error i) ∨
      ∃ p, x = .ok p ∧ r.resolve fuel (source.discover memory') k = .ok (.resolved p)) :
    (r.drive fuel source memory).1 = x := by
  obtain ⟨left, hl⟩ : ∃ left, r.settings.maxRounds - k = left + 1 :=
    ⟨r.settings.maxRounds - k - 1, by omega⟩
  have hround : r.settings.maxRounds - (left + 1) = k := by omega
  rw [h.driveFrom hk.le, hl, Resolver.driveFrom, hround]
  rcases hx with ⟨i, rfl, hi⟩ | ⟨p, rfl, hp⟩
  · rw [hi]
  · rw [hp]

/-- **If all rounds demand another, they are exhausted.** -/
theorem ComesTo.drive_exhausted (h : ComesTo r fuel source memory k memory' last)
    (hk : k = r.settings.maxRounds) :
    (r.drive fuel source memory).1 = .error (.failure (r.roundsExhausted last)) := by
  rw [h.driveFrom hk.le, hk, Nat.sub_self, Resolver.driveFrom]

/-- One of the first rounds demands no other, or all do. -/
theorem comesTo_cases (r : Resolver) (fuel : Nat) (source : Discoverer σ) (memory : σ) (n : Nat) :
    (∃ k < n, ∃ memory' last, ComesTo r fuel source memory k memory' last ∧
      ((∃ i, r.resolve fuel (source.discover memory') k = .error i) ∨
        ∃ p, r.resolve fuel (source.discover memory') k = .ok (.resolved p))) ∨
      ∃ memory' last, ComesTo r fuel source memory n memory' last := by
  induction n with
  | zero => exact .inr ⟨memory, none, .start⟩
  | succ n ih =>
    rcases ih with ⟨k, hk, h⟩ | ⟨memory', last, h⟩
    · exact .inl ⟨k, by omega, h⟩
    · cases hx : r.resolve fuel (source.discover memory') n with
      | error i => exact .inl ⟨n, by omega, memory', last, h, .inl ⟨i, hx⟩⟩
      | ok x =>
        cases x with
        | resolved p => exact .inl ⟨n, by omega, memory', last, h, .inr ⟨p, hx⟩⟩
        | restart q => exact .inr ⟨_, _, h.restart hx⟩

/-- How many rounds are allowed makes no difference to the rounds that are tried. -/
theorem ComesTo.withRounds (hr : r.Timeless) (h : ComesTo r fuel source memory k memory' last) :
    ComesTo (r.withRounds m) fuel source memory k memory' last := by
  induction h with
  | start => exact .start
  | restart _ hq ih => exact ih.restart ((resolve_withRounds hr).trans hq)

/-- If a demand for another round changes nothing, it is repeated for ever. -/
theorem ComesTo.forever (hr : r.Timeless) (h : ComesTo r fuel source memory k memory' last)
    (hq : r.resolve fuel (source.discover memory') k = .ok (.restart q))
    (hsame : ∀ l, source.prepare memory' (q.atRound l) = memory') (i : Nat) :
    ComesTo r fuel source memory (k + i + 1) memory' (some (q.atRound (k + i))) := by
  have hround (l : Nat) := restart_of_resolve hr hq l
  induction i with
  | zero => exact hsame k ▸ h.restart (hround k)
  | succ i ih =>
    have hnext := ih.restart (hround (k + i + 1))
    rwa [hsame] at hnext

end Resolver

end Wiring
