import Wiring.Proofs.Resolution.Proxies
/-!
# What a proxy can forward to

A proxy has the type that is claimed, and its calls go to the component that it stands for. If that
component can be used as the type claimed, it can take the calls. But a component satisfies a claim
by what it wraps, too, and whether a cycle can be broken is a question of the type claimed only. So
a proxy may stand for a wrapper that is of another type than the proxy
(`Resolver.proxy_of_wrapper`).

* `State.Suited`: what proxies are remembered for satisfies a claim on their type. Each move keeps
  it, since a component that closes a cycle satisfies the claim right below.
* `Resolver.proxies_forward_or_unwrap`: in a plan, what a proxy is bound to can be used as the type
  of the proxy, or only its wrapped value can.
-/

namespace Wiring

namespace State

variable {r : Resolver} {s t : State}

/-- What each proxy is remembered for satisfies a claim on the type of the proxy. -/
def Suited (s : State) : Prop :=
  ∀ x ∈ s.proxies, ∃ d ∈ s.catalog.sources, d.id = x.1.2 ∧ ∃ c : Claim, c.type = x.1.1 ∧ d.Fits c

theorem suited_start (c : Catalog) : (start c).Suited := by
  simp [Suited, start]

theorem Suited.mono (h : s.Suited) (hg : s.Grows t) (e : t.proxies = s.proxies) : t.Suited := by
  intro x hx
  obtain ⟨d, hd, h⟩ := h x (e ▸ hx)
  exact ⟨d, hg.catalog.sources.mem hd, h⟩

/-- **A move keeps proxies suited to what they stand for.** -/
theorem Suited.move (h : s.Suited) (hi : s.Identified r.types) (hm : r.Move s t) : t.Suited := by
  have hg := hm.grows
  cases hm with
  | @forward f w below c cs n proxy catalog hs hw hf hk ht hp hr =>
    intro x hx
    rcases List.mem_cons.1 hx with rfl | hx
    · -- The frame below waits with the claim, and the component is started for it.
      obtain ⟨hd, -, hfit⟩ := (hi.top hs).of_mem hw hf
      exact ⟨f.source, hg.catalog.sources.mem hd, rfl, c, rfl, hfit⟩
    · obtain ⟨d, hd, h⟩ := h x hx
      exact ⟨d, hg.catalog.sources.mem hd, h⟩
  | _ => exact h.mono hg rfl

end State

namespace Resolver

variable {r : Resolver} {drafts : List Draft} {s : State} {c₀ : Catalog}

theorem Moves.suited (hm : Moves r (.start c₀) s) (hc : Declared r drafts c₀) : s.Suited := by
  induction hm with
  | refl => exact State.suited_start c₀
  | tail hm h ih => exact ih.move (Moves.identified hm hc) h

/-- What a finished proxy stands for satisfies a claim on the type of the proxy. -/
theorem reaches_or_wraps_of_standsFor {m : Node} {d : Source} {i : Nat}
    (hi : s.Identified r.types) (hb : s.Bound r) (hs : s.Suited) (hm : s.resolved[i]? = some m)
    (hsf : m.StandsFor r d m.source.type) (hd : d ∈ s.catalog.sources) :
    r.types.Reaches d.type m.source.type ∨ r.types.Wraps d.type m.source.type := by
  obtain ⟨d', hd', hid, c, hc, hfit⟩ := hs _ (State.mem_of_lookup (hb.remembered i m d hm hsf))
  have hdecl := Catalog.declares_of_mem hi.sound hd
  obtain rfl : d' = d := (Catalog.declares_of_mem hi.sound hd').ext hi.sound hdecl hid
  obtain ⟨-, h⟩ := hdecl.1.fits_iff.1 hfit
  rwa [hc] at h

/-- **A proxy forwards to what can be used as its type, or to a wrapper of it.** In a plan, the
deferred parameter of each proxy is bound to a later component of the type that the proxy is made
for. That component can be used as the type of the proxy; or else only the value that it wraps
can. -/
theorem proxies_forward_or_unwrap (r : Resolver) (fuel : Nat) (drafts : List Draft) (round : Nat)
    (p : Plan) (ho : ∀ d ∈ drafts, d.origin.isFound = true)
    (h : r.resolve fuel drafts round = .ok (.resolved p)) :
    ∀ (i : Nat) (q : Component), p.components[i]? = some q → q.isProxy = true →
      ∃ c id j x, q.dependencies = [.proxyParameter c id (some j)] ∧ i < j ∧
        p.components[j]? = some x ∧ x.isProxy = false ∧ q.origin = .promisedProxy x.type ∧
        (r.types.Reaches x.type q.type ∨
          ¬ r.types.Reaches x.type q.type ∧ r.types.Wraps x.type q.type) := by
  obtain ⟨s, hs, rfl⟩ := resolve_eq_resolved_iff.1 h
  obtain ⟨c₀, hc, hm⟩ := hs.reachable.moves
  have hi := hm.identified hc
  have hb := hm.bound hc ho
  intro i q hq hp
  obtain ⟨m, hmn, rfl⟩ := State.exists_of_toPlan hq
  obtain ⟨d, hd, hdp, hsf⟩ := (hm.answered hc ho).exists_of_isProxy (List.mem_of_getElem? hmn) hp
  obtain ⟨j, hij, hj⟩ := (hb.upcoming i m d hmn hsf).exists_position? hi hs.stack
  obtain ⟨n, hbind⟩ : ∃ n,
      (s.toPlan round).Binds s (s.componentAt i m) d.type d.forwardingClaim n j :=
    binds_of_standsFor hi hsf hd hdp hj
  have hfits := reaches_or_wraps_of_standsFor hi hb (hm.suited hc) hmn hsf hd
  have htype := hbind.type_eq
  refine ⟨_, _, j, _, hbind.parameter, hij, hbind.component, hbind.notProxy, ?_, ?_⟩
  · rw [htype]
    exact hsf.origin_eq
  · rw [htype]
    by_cases hr : r.types.Reaches d.type m.source.type
    · exact .inl hr
    · exact .inr ⟨hr, hfits.resolve_left hr⟩

/-- The hub is a bus. -/
theorem proxies_forward_or_unwrap_ring : ∃ p q c id j x,
    ring.resolve 50 ringDrafts 0 = .ok (.resolved p) ∧ p.components[0]? = some q ∧
    q.dependencies = [.proxyParameter c id (some j)] ∧ p.components[j]? = some x ∧
    (ring.types.Reaches x.type q.type ∨
      ¬ ring.types.Reaches x.type q.type ∧ ring.types.Wraps x.type q.type) := by
  obtain ⟨p, hp, hq⟩ := exists_plan (x := ring.resolve 50 ringDrafts 0)
    (fun p => p.components[0]?.any Component.isProxy) (by decide +kernel)
  obtain ⟨q, hq, hproxy⟩ := (Option.any_eq_true _ _).1 hq
  obtain ⟨c, id, j, x, he, -, hx, -, -, h⟩ :=
    proxies_forward_or_unwrap ring 50 ringDrafts 0 p (by decide) hp 0 q hq hproxy
  exact ⟨p, q, c, id, j, x, hp, hq, he, hx, h⟩

/-- A service is an interface, and a lazy value wraps one of any type. -/
def lazies : Resolver where
  types.types := .ofList
    [("Lazy", { params := ["T"], wraps := some (.named "T" []) }),
     ("Service", { kind := .interface })]

/-- A lazy service needs a port, and the port needs the service. -/
def lazyDrafts : List Draft :=
  [{ name := "lazy", type := .named "Lazy" [.named "Service" []], isRoot := true,
     claims := [{ type := .named "Port" [] }] },
   { name := "port", type := .named "Port" [], claims := [{ type := .named "Service" [] }] }]

/-- Whether the component at a position is a proxy, bound to a component that cannot be used as its
type. -/
def misdirects (u : Universe) (n : Nat) (p : Plan) (i : Nat) : Bool :=
  p.components[i]?.any fun q => q.isProxy && match q.dependencies with
    | [.proxyParameter _ _ (some j)] => p.components[j]?.any fun x =>
      u.assignable? n x.type q.type == some false
    | _ => false

/-- **A proxy of a service that stands for a lazy service.** The port gets it in place of the
service. -/
theorem proxy_of_wrapper : ∃ p q c id j x,
    lazies.resolve 50 lazyDrafts 0 = .ok (.resolved p) ∧ p.components[0]? = some q ∧
    q.isProxy = true ∧ q.dependencies = [.proxyParameter c id (some j)] ∧
    p.components[j]? = some x ∧ ¬ lazies.types.Reaches x.type q.type := by
  obtain ⟨p, hp, hq⟩ := exists_plan (x := lazies.resolve 50 lazyDrafts 0)
    (fun p => misdirects lazies.types 50 p 0) (by decide +kernel)
  obtain ⟨q, hq, h⟩ := (Option.any_eq_true _ _).1 hq
  obtain ⟨hproxy, h⟩ := Bool.and_eq_true_iff.1 h
  split at h
  · next c id j he =>
    obtain ⟨x, hx, h⟩ := (Option.any_eq_true _ _).1 h
    refine ⟨p, q, c, id, j, x, hp, hq, hproxy, he, hx, fun hr => ?_⟩
    have := (Universe.assignable?_iff (beq_iff_eq.1 h)).2 hr
    cases this
  · cases h

end Resolver

end Wiring
