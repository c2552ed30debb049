import HashedAssets.Proofs.Resolver.Blame
import HashedAssets.Proofs.Resolver.Meanwhile
import HashedAssets.Proofs.Resolution.Digests
import Mathlib.Data.List.Nodup

/-!
# What a flight has learnt

A flight makes its result of the answers to its requests, and the result records the digests of these
answers.

* `Labelled`, `Run.labelled`: what is found under a path is of that path, and records a digest for each
  target;
* `Move.outcome?`, `Run.children`: an answer stays, and a flight goes on to wait for the same requests;
* `landing_of_flightSteps`: what a flight that has waited makes its result of;
* `records_of_yields`: it records the digests of the answers.
-/

namespace HashedAssets.Resolver

open SingleFlight Relation

variable {ok : Action → Prop} {s t u : Resolver} {n : CallId} {f : Flight} {p q : String}
  {r v : Resolved} {i : RequestId}

/-! ### Paths and their results -/

/-- Flights wait for assets of their paths, what is kept is of its path and records a digest for each
target, and so are the results that flights and requests end with. -/
structure Labelled (s : Resolver) : Prop where
  gathers : ∀ n f a es kept children, s.flights.call? n = some f →
    f.status = .running (.gathering a es kept children) → a.definition.path = f.key
  kept : ∀ p e, s.entries.get? p = some e → e.asset.definition.path = p ∧ e.resolved.path = p ∧
    e.resolved.dependencyDigests.keys = ascending (Edge.targets e.resolved.edges)
  answers : Answers (fun p a => ∀ r, a = .ok r → r.path = p) 0 0 s.flights s.requests

theorem Labelled.make (x : Context) (c : Catalog) (watch : Option Watch) :
    Labelled (make x c watch) where
  gathers n f a es kept children hf := by cases hf
  kept p e he := by cases he
  answers := .beyond (Nat.le_refl _) (Nat.le_refl _)

theorem keys_of_resolve {x : Context} {c : Catalog} {a : Prepared} {es : List Edge}
    {m : PathMap Resolved} (h : x.resolve c a es m = .ok r) :
    r.dependencyDigests.keys = ascending (Edge.targets es) := by
  rw [PathMap.keys, Context.bindings_dependencyDigests h, List.map_map]
  exact List.map_id _

/-- A result that a flight gets is one of its path. -/
theorem Landing.labelled (h : Labelled s) (hs : Coherent s) (hf : s.flights.call? n = some f)
    (hgo : f.cancelled = false) {m : PathMap Entry} (hl : Landing s f m r) :
    r.path = f.key ∧ r.dependencyDigests.keys = ascending (Edge.targets r.edges) := by
  cases hl with
  | reuse hst _ _ =>
      obtain ⟨e, he, -, rfl, -⟩ := hs.tended.exists_entry hf hgo hst
      exact (h.kept f.key e he).2
  | renew hst _ _ hres =>
      obtain ⟨-, -, -, -, -, hpath, hedges, -⟩ := Context.resolve_eq_ok_iff.1 hres
      exact ⟨hpath.trans (h.gathers n f _ _ _ _ hf hst), hedges ▸ keys_of_resolve hres⟩

/-- Every move keeps this. -/
theorem Labelled.move (h : Labelled s) (hs : Coherent s) (hm : Move s u) : Labelled u where
  gathers n f a es kept children hf hst := by
    cases hm.before hf with
    | same hf₀ hk hst₀ _ => exact (h.gathers n _ a es kept children hf₀ (hst₀.trans hst)).trans hk
    | begun _ hl _ => rw [hst] at hl; cases hl
    | moved hf₀ hm =>
        cases hst
        cases hm.stage hf₀ hf with
        | rechecks _ he _ _ => exact (h.kept _ _ he).1
        | gathers _ _ hget hprep _ _ =>
            obtain ⟨ds, -, -, rfl, -⟩ := Context.prepare_eq_ok_iff.1 hprep
            exact hs.keyed _ _ (Catalog.get_eq_ok_iff.1 hget)
  kept p e he := by
    rcases hm.entry hs he with ⟨e₀, he₀, ha, hr, -⟩ | ⟨n, f, m, hf, hgo, rfl, hl, hme, -⟩
    · exact ha ▸ hr ▸ h.kept p e₀ he₀
    · obtain ⟨-, e', he', -, hr, kept, children, hst⟩ := hl.get? hs hf hgo
      rw [hme] at he'; cases he'
      exact ⟨h.gathers n f _ _ _ _ hf hst, hl.labelled h hs hf hgo⟩
  answers := by
    have hshift : Shift s u →
        Answers (fun p a => ∀ r, a = .ok r → r.path = p) 0 0 u.flights u.requests :=
      h.answers.shift (.zero _ _) hs (fun p g _ r hr => by cases hr)
        fun p e he _ r hr => by cases hr; exact (h.kept p e he).2.1
    rcases hm with hm | ⟨n, hq | ⟨f, hf, hm⟩⟩
    · exact hshift hm
    · exact hshift (.lapse (.quiet hq))
    · refine h.answers.flight hf hm fun a hst r hr => ?_
      cases hr
      cases hm.stage hf hst with
      | landed hgo hl _ => exact (hl.labelled h hs hf hgo).1

theorem Labelled.hush {rs : List Request} (h : Labelled s) (hh : Hushed s.requests rs) :
    Labelled { s with requests := rs } := ⟨h.gathers, h.kept, h.answers.hush hh⟩

/-- So does every run. -/
theorem Labelled.run (h : Labelled s) (hs : Coherent s) (hrun : Run ok s t) : Labelled t :=
  hrun.induction_coherent hs h (fun _ _ hs hP hm => hP.move hs hm) fun _ _ _ hP hh => hP.hush hh

theorem Run.labelled {x : Context} {cat : Catalog} {watch : Option Watch} (hcat : cat.Keyed)
    (h : Run ok (make x cat watch) s) : Labelled s :=
  Labelled.run (.make x cat watch) (.make hcat watch) h

/-! ### Answers that a flight has got -/

/-- What a request has ended with stays. -/
theorem Move.outcome? (hm : Move s u) {o : Outcome Answer} (ho : s.outcome? i = some o) :
    u.outcome? i = some o := by
  obtain ⟨r, hr, hd⟩ := outcome?_eq_some_iff.1 ho
  obtain ⟨r', hr', -, hc⟩ := hm.exists_request hr
  refine outcome?_eq_some_iff.2 ⟨r', hr', ?_⟩
  rw [hd] at hc
  rcases hc with hsame | hfresh | ⟨n, o', hw, -, -⟩
  · exact hsame
  · cases hfresh
  · cases hw

theorem Hushed.outcome? {rs : List Request} (hh : Hushed s.requests rs) {o : Outcome Answer}
    (ho : s.outcome? i = some o) : ({ s with requests := rs } : Resolver).outcome? i = some o := by
  obtain ⟨r, hr, hd⟩ := outcome?_eq_some_iff.1 ho
  obtain ⟨r', hr', -, hc⟩ := hh.symm.exists_eq hr
  exact outcome?_eq_some_iff.2 ⟨r', hr', hc.trans hd⟩

/-- A flight that waits goes on to wait for the same requests, or it ends. -/
theorem Move.gathering (hm : Move s u) (hf : s.flights.call? n = some f) {a : Prepared}
    {es : List Edge} {kept : Option Resolved} {children : List RequestId}
    (hst : f.status = .running (.gathering a es kept children)) :
    u.Ended n ∨ ∃ f', u.flights.call? n = some f' ∧
      f'.status = .running (.gathering a es kept children) := by
  obtain ⟨f', hf', -, hst' | hrank⟩ := hm.exists_call? hf
  · exact .inr ⟨f', hf', hst'.trans hst⟩
  · rw [hst] at hrank
    obtain ⟨o, ho⟩ := exists_finished_of_lt hrank
    exact .inl ⟨f', hf', isRunning_eq_false_of_status ho⟩

/-- What a flight waits for, and the answers that it has, stay until it ends. -/
theorem Run.gathering (h : Run ok s t) (hs : Coherent s) (hf : s.flights.call? n = some f)
    {a : Prepared} {es : List Edge} {kept : Option Resolved} {children : List RequestId}
    (hst : f.status = .running (.gathering a es kept children)) (hn : ¬ t.Ended n) :
    (∃ f', t.flights.call? n = some f' ∧ f'.status = .running (.gathering a es kept children)) ∧
      ∀ i o, s.outcome? i = some o → t.outcome? i = some o := by
  have hall : (t.Ended n ∨ ∃ f', t.flights.call? n = some f' ∧
      f'.status = .running (.gathering a es kept children)) ∧
      ∀ i o, s.outcome? i = some o → t.outcome? i = some o := by
    refine h.induction_coherent (P := fun t => (t.Ended n ∨ ∃ f', t.flights.call? n = some f' ∧
      f'.status = .running (.gathering a es kept children)) ∧
      ∀ i o, s.outcome? i = some o → t.outcome? i = some o) hs
      ⟨.inr ⟨f, hf, hst⟩, fun _ _ => id⟩ (fun v w _ hP hm => ?_)
      fun v rs _ hP hh => ⟨hP.1, fun i o ho => hh.outcome? (hP.2 i o ho)⟩
    refine ⟨?_, fun i o ho => hm.outcome? (hP.2 i o ho)⟩
    rcases hP.1 with he | ⟨f', hf', hst'⟩
    · exact .inl (he.move hm)
    · exact hm.gathering hf' hst'
  exact ⟨hall.1.resolve_left hn, hall.2⟩

/-! ### What a result is made of -/

theorem collect_congr (h : u.requests = s.requests) (children : List RequestId) :
    u.collect children = s.collect children := by
  induction children with
  | nil => rfl
  | cons i rest ih =>
      have ho : u.outcome? i = s.outcome? i := by rw [Resolver.outcome?, Resolver.outcome?, h]
      rw [collect, collect, ho, ih]

/-- What a flight that waits gets its result from: the kept result that it checks goes with the answers,
or the result is made of them. -/
theorem landing_of_flightSteps (h : ReflTransGen (FlightStep n) s u)
    (hf : s.flights.call? n = some f) {a : Prepared} {es : List Edge} {kept : Option Resolved}
    {children : List RequestId} (hst : f.status = .running (.gathering a es kept children))
    (hy : u.Yields n r) : ∃ m, s.collect children = .result (.ok m) ∧
      (kept = some r ∧ isUpToDate r m = true ∨ s.context.resolve s.catalog a es m = .ok r) := by
  obtain ⟨f', hf', hst'⟩ := hy
  induction h using ReflTransGen.head_induction_on with
  | refl =>
      rw [hf] at hf'; cases hf'
      rw [hst] at hst'; cases hst'
  | @head s v hm hu ih =>
      rcases hm with hq | ⟨f₀, hf₀, hm⟩
      · have hrequests : v.requests = s.requests := by cases hq; rfl
        obtain ⟨m, hm, hr⟩ := ih (by cases hq; exact hf)
        exact ⟨m, collect_congr hrequests children ▸ hm, by cases hq; exact hr⟩
      · rw [hf] at hf₀; cases hf₀
        -- the flight ends, and what it has ended with stays
        obtain ⟨st, hv, hrank, hstage⟩ := hm.exists_stage hf
        rw [hst] at hrank
        obtain ⟨o, rfl⟩ := exists_finished_of_lt hrank
        obtain ⟨st', hu', rfl | hlt⟩ := call?_of_flightSteps hu hv
        · rw [hu'] at hf'; cases hf'
          cases hst'
          cases hstage with
          | landed _ hl _ =>
              cases hl with
              | reuse hst₁ hans hcur =>
                  rw [hst] at hst₁; cases hst₁
                  exact ⟨_, hans, .inl ⟨rfl, hcur⟩⟩
              | renew hst₁ hans _ hres =>
                  rw [hst] at hst₁; cases hst₁
                  exact ⟨_, hans, .inr hres⟩
        · exact absurd (rank_le st') (Nat.not_le.2 hlt)

/-- What a flight collects holds the answer of each request under its path. -/
theorem Labelled.get?_of_collect (h : Labelled s) (hs : Coherent s)
    (hf : s.flights.call? n = some f) {a : Prepared} {es : List Edge} {kept : Option Resolved}
    {children : List RequestId} (hst : f.status = .running (.gathering a es kept children))
    {m : PathMap Resolved} (hm : s.collect children = .result (.ok m)) (hi : i ∈ children)
    (ho : s.outcome? i = some (.result (.ok v))) :
    m.get? v.path = some v ∧ v.path ∈ Edge.targets es := by
  obtain ⟨hall, hfrom⟩ := collect_eq_ok hm
  have hpath : ∀ j ∈ children, ∀ w, s.outcome? j = some (.result (.ok w)) →
      (s.requests[j]?).map (·.target) = some (.logical w.path) ∧ w.path ∈ Edge.targets es :=
    fun j hj w ho => by
      obtain ⟨r, q, hr, ht, hq⟩ := hs.wired.exists_child hf hst hj
      obtain ⟨r', hr', hd⟩ := outcome?_eq_some_iff.1 ho
      rw [hr] at hr'; cases hr'
      have hw : w.path = q := h.answers.requests j r _ q (Nat.zero_le j) hr hd ht w rfl
      exact ⟨by rw [hr, hw, ← ht]; rfl, hw ▸ hq⟩
  obtain ⟨w, hw, v', hv'⟩ := hall i hi
  rw [ho] at hw; cases hw
  obtain ⟨hpath', j, hj, hoj⟩ := hfrom v.path v' hv'
  -- each target is asked for once
  have hnodup : (children.map fun k => (s.requests[k]?).map (·.target)).Nodup := by
    rw [hs.wired.children n f a es kept children hf hst]
    refine List.Nodup.map (fun x y hxy => by cases hxy; rfl) ?_
    refine List.nodup_iff_pairwise_ne.2 ((pairwise_ascending _).imp fun {x y} hlt he => ?_)
    exact String.lt_irrefl _ (he ▸ hlt)
  have hij : i = j := List.inj_on_of_nodup_map hnodup hi hj
    (by rw [(hpath i hi v ho).1, (hpath j hj v' hoj).1, hpath'])
  subst hij
  rw [ho] at hoj; cases hoj
  exact ⟨hv', (hpath i hi v ho).2⟩

/-- The result of a flight that has waited records the digests of the answers. -/
theorem records_of_yields (h : Labelled s) (hs : Coherent s) (hn : s.UnderWay p n)
    (hsteps : ReflTransGen (FlightStep n) s u) (hy : u.Yields n r) (hf : s.flights.call? n = some f)
    {a : Prepared} {es : List Edge} {kept : Option Resolved} {children : List RequestId}
    (hst : f.status = .running (.gathering a es kept children)) (hi : i ∈ children) :
    ∃ v, s.outcome? i = some (.result (.ok v)) ∧ r.dependencyDigests.get? v.path = some v.digest := by
  obtain ⟨f', hf', -, hgo, -⟩ := hn.exists_call hs
  rw [hf] at hf'; cases hf'
  obtain ⟨m, hm, hr⟩ := landing_of_flightSteps hsteps hf hst hy
  obtain ⟨v, ho, -⟩ := (collect_eq_ok hm).1 i hi
  obtain ⟨hget, htarget⟩ := h.get?_of_collect hs hf hst hm hi ho
  refine ⟨v, ho, ?_⟩
  rcases hr with ⟨rfl, hcur⟩ | hres
  · obtain ⟨e, he, -, rfl, -, hes⟩ := hs.tended.exists_entry hf hgo hst
    have hkey : v.path ∈ e.resolved.dependencyDigests.keys := by
      rw [(h.kept f.key e he).2.2, hes]
      exact mem_ascending.2 htarget
    obtain ⟨⟨q, b⟩, hb, rfl⟩ := List.mem_map.1 hkey
    obtain ⟨v', hv', hd⟩ := Context.isUpToDate_iff.1 hcur _ hb
    rw [hget] at hv'; cases hv'
    exact PathMap.get?_eq_some_iff.2 (hd ▸ hb)
  · refine PathMap.get?_eq_some_iff.2 ?_
    rw [Context.bindings_dependencyDigests hres]
    refine List.mem_map.2 ⟨v.path, mem_ascending.2 htarget, ?_⟩
    rw [Context.digestIn, hget]
    rfl

end HashedAssets.Resolver
