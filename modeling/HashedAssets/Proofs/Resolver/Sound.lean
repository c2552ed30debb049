import HashedAssets.Proofs.Graph.Search
import HashedAssets.Proofs.Resolution.Solutions
import HashedAssets.Proofs.Resolver.Answers

/-!
# What requests are told

With sources that never change, requests get the solutions of the equations of resolution, whatever
happens in whatever order.

* `Correct`: an answer that is the solution, or a failure where there is none;
* `Held`: what flights have come to, and what is kept and not marked, is correct;
* `Sound`: so is what flights and requests end with; every move keeps it, if what is used again is
  correct (`Reuses`);
* `FailCause.not_solves`, `Landing.solves`: how a flight comes to its answer.

The first flights and requests, up to given numbers, are those of the time before the sources came to be
what they are: nothing is said of what these ended with.
-/

namespace HashedAssets

open SingleFlight Relation

/-- Whether an answer for a path is right: a result is the solution, and where there is none there is no
solution. -/
def Context.Correct (x : Context) (c : Catalog) (p : String) : Answer → Prop
  | .ok r => x.Solves c p r
  | .error _ => ∀ r, ¬ x.Solves c p r

/-- An asset that needs itself, directly or not, resolves to nothing. -/
theorem Context.Solves.not_transGen {x : Context} {c : Catalog} {p : String} {r : Resolved}
    (hc : c.Keyed) (h : x.Solves c p r) : ¬ TransGen (x.Needs c) p p := (h.good hc).not_transGen hc

namespace Resolver

/-! ### States -/

/-- What a flight for a path has come to comes from the sources: its bytes, its asset. -/
def Tracks (x : Context) (c : Catalog) (p : String) : SingleFlight.Status Phase Answer → Prop
  | .running (.loading fetched) => ∃ d, c.entries.get? p = some d ∧ fetched.result = d.give 0
  | .running (.gathering a es _ _) => x.Reads c p a es
  | _ => True

/-- What is kept is made of the bytes that the sources give, and is the solution unless it is marked;
flights come to what these bytes stand for, and the edges in the graph are edges of theirs. -/
structure Held (x : Context) (c : Catalog) (s : Resolver) : Prop where
  context : s.context = x
  catalog : s.catalog.entries = c.entries
  edges : ∀ p q, s.graph.Adjacent p q → x.Needs c p q
  reads : ∀ p e, s.entries.get? p = some e → x.Reads c p e.asset e.resolved.edges
  solves : ∀ p e, s.entries.get? p = some e → e.needsCheck = false → x.Solves c p e.resolved
  tracks : ∀ n f, s.flights.call? n = some f → Tracks x c f.key f.status

/-- What is kept, and what flights and requests have ended with, is correct. -/
structure Sound (x : Context) (c : Catalog) (n₀ : CallId) (i₀ : RequestId) (s : Resolver) : Prop where
  held : Held x c s
  scope : Scope n₀ i₀ s.flights s.requests
  answers : Answers (x.Correct c) n₀ i₀ s.flights s.requests

/-- What flights that check a kept result use again is the solution. -/
def Reuses (x : Context) (c : Catalog) (s : Resolver) : Prop :=
  ∀ n f a es k children m, s.flights.call? n = some f → f.cancelled = false →
    f.status = .running (.gathering a es (some k) children) →
    s.collect children = .result (.ok m) → isUpToDate k m = true → x.Solves c f.key k

variable {x : Context} {c : Catalog} {n₀ n : CallId} {i₀ : RequestId} {s u : Resolver} {f : Flight}

theorem Sound.make (x : Context) (c : Catalog) (watch : Option Watch) :
    Sound x c 0 0 (make x c watch) where
  held :=
    { context := rfl
      catalog := rfl
      edges := fun p q h => by cases h
      reads := fun p e h => by cases h
      solves := fun p e h => by cases h
      tracks := fun n f h => by cases h }
  scope := .zero _ _
  answers := .beyond (Nat.le_refl _) (Nat.le_refl _)

theorem Held.not_solves_of_get (h : Held x c s) {g : Failure} {p : String}
    (hg : s.catalog.get p = .error g) (r : Resolved) : ¬ x.Solves c p r := by
  rintro ⟨⟨d, raw, hd, -, -⟩, -, -, -⟩
  rw [← h.catalog, (Catalog.get_eq_error hg).1] at hd
  cases hd

theorem Held.reads_of_gathering (h : Held x c s) (hf : s.flights.call? n = some f) {a : Prepared}
    {es : List Edge} {kept : Option Resolved} {children : List RequestId}
    (hst : f.status = .running (.gathering a es kept children)) : x.Reads c f.key a es := by
  have htracks := h.tracks n f hf
  rwa [hst] at htracks

theorem Held.give_of_loading (h : Held x c s) (hf : s.flights.call? n = some f)
    {fetched : Catalog.Fetch} (hst : f.status = .running (.loading fetched)) :
    ∃ d, c.entries.get? f.key = some d ∧ fetched.result = d.give 0 := by
  have htracks := h.tracks n f hf
  rwa [hst] at htracks

/-- The asset that a flight has loaded is made of the bytes that its source gives. -/
theorem Held.reads_of_prepare (h : Held x c s) (hf : s.flights.call? n = some f)
    {fetched : Catalog.Fetch} {raw : Bytes} {d : Definition} {a : Prepared} {es : List Edge}
    (hst : f.status = .running (.loading fetched)) (hres : fetched.result = .ok raw)
    (hget : s.catalog.get f.key = .ok d) (hprep : s.context.prepare s.catalog d raw = .ok (a, es)) :
    x.Reads c f.key a es := by
  obtain ⟨d₀, hd₀, hgive⟩ := h.give_of_loading hf hst
  rw [Catalog.get_eq_ok_iff, h.catalog, hd₀] at hget
  cases hget
  rw [h.context, Context.prepare_congr h.catalog] at hprep
  exact ⟨d, raw, hd₀, hgive.symm.trans hres, hprep⟩

/-! ### Answers that come together -/

/-- A flight that has the answers it waits for has the solutions of its targets. -/
theorem Sound.collect (h : Sound x c n₀ i₀ s) (hc : c.Keyed) (hs : Coherent s)
    (hf : s.flights.call? n = some f) {a : Prepared} {es : List Edge} {kept : Option Resolved}
    {children : List RequestId} (hst : f.status = .running (.gathering a es kept children))
    {m : PathMap Resolved} (hm : s.collect children = .result (.ok m)) :
    (∀ q ∈ Edge.targets es, ∃ r, m.get? q = some r) ∧ ∀ q r, m.get? q = some r → x.Solves c q r := by
  obtain ⟨hall, hfrom⟩ := collect_eq_ok hm
  have hsolves : ∀ i ∈ children, ∀ v q r, s.outcome? i = some (.result (.ok v)) →
      s.requests[i]? = some r → r.target = .logical q → x.Solves c q v := fun i hi v q r ho hr ht => by
    obtain ⟨r', hr', hdone⟩ := outcome?_eq_some_iff.1 ho
    rw [hr] at hr'; cases hr'
    exact h.answers.requests i r _ q (h.scope.children n f a es kept children hf hst i hi) hr hdone ht
  refine ⟨fun q hq => ?_, fun q r hq => ?_⟩
  · obtain ⟨i, hi, r, hr, ht⟩ := hs.wired.exists_mem_children hf hst hq
    obtain ⟨v, hv, r', hr'⟩ := hall i hi
    rw [(hsolves i hi v q r hv hr ht).path_eq hc] at hr'
    exact ⟨r', hr'⟩
  · obtain ⟨hpath, i, hi, ho⟩ := hfrom q r hq
    obtain ⟨r', q', hr', ht, -⟩ := hs.wired.exists_child hf hst hi
    have hsol := hsolves i hi r q' r' ho hr' ht
    rw [← hpath, hsol.path_eq hc]
    exact hsol

/-- Where a flight fails there is no solution. -/
theorem FailCause.not_solves (h : Sound x c n₀ i₀ s) (hc : c.Keyed) (hs : Coherent s)
    (hf : s.flights.call? n = some f) {g : Failure} (hg : FailCause s f g) (r : Resolved) :
    ¬ x.Solves c f.key r := by
  cases hg with
  | unregistered _ hget => exact h.held.not_solves_of_get hget r
  | unread hst hres =>
      rintro ⟨⟨d, raw, hd, hraw, -⟩, -, -, -⟩
      obtain ⟨d', hd', hgive⟩ := h.held.give_of_loading hf hst
      rw [hd] at hd'; cases hd'
      rw [hres, hraw] at hgive
      cases hgive
  | @unprepared fetched raw d g hst hres hget hprep =>
      rintro ⟨⟨d', raw', hd', hraw', hprep'⟩, -, -, -⟩
      obtain ⟨d₀, hd₀, hgive⟩ := h.held.give_of_loading hf hst
      rw [hd'] at hd₀; cases hd₀
      rw [hres, hraw'] at hgive
      cases hgive
      rw [Catalog.get_eq_ok_iff, h.held.catalog, hd'] at hget
      cases hget
      rw [h.held.context, Context.prepare_congr h.held.catalog, hprep'] at hprep
      cases hprep
  | @target a es kept children g hst _ hans =>
      obtain ⟨i, hi, ho⟩ := collect_eq_error hans
      obtain ⟨r', q, hr', ht, hq⟩ := hs.wired.exists_child hf hst hi
      obtain ⟨r'', hr'', hdone⟩ := outcome?_eq_some_iff.1 ho
      rw [hr'] at hr''; cases hr''
      have hnone : ∀ v, ¬ x.Solves c q v := h.answers.requests i r' _ q
        (h.scope.children n f a es kept children hf hst i hi) hr' hdone ht
      rintro ⟨hreads, hpres, htar, -⟩
      obtain ⟨rfl, rfl⟩ := hreads.unique (h.held.reads_of_gathering hf hst)
      obtain ⟨v, hv⟩ := hpres q hq
      exact hnone v (htar q hq v hv)
  | @unresolved a es kept children m g hst hans hres =>
      obtain ⟨hall, hsol⟩ := h.collect hc hs hf hst hans
      rintro ⟨hreads, hpres, htar, hok⟩
      rename_i a' es' m'
      obtain ⟨rfl, rfl⟩ := hreads.unique (h.held.reads_of_gathering hf hst)
      obtain ⟨d, raw, -, -, hp⟩ := hreads
      -- the answers are the only solutions, so the result is the same
      have hsame : ∀ q ∈ Edge.targets es', ∃ v, m.get? q = some v ∧ m'.get? q = some v := fun q hq => by
        obtain ⟨v, hv⟩ := hall q hq
        obtain ⟨v', hv'⟩ := hpres q hq
        exact ⟨v, hv, (hsol q v hv).unique (htar q hq v' hv') ▸ hv'⟩
      rw [h.held.context, Context.resolve_catalog_congr h.held.catalog,
        Context.resolve_congr hp fun _ he => Context.agree_of_eq hsame he, hok] at hres
      cases hres

/-- A result that a flight gets is the solution. -/
theorem Landing.solves (h : Sound x c n₀ i₀ s) (hc : c.Keyed) (hs : Coherent s)
    (hreuse : Reuses x c s) (hf : s.flights.call? n = some f) (hgo : f.cancelled = false)
    {m : PathMap Entry} {r : Resolved} (hl : Landing s f m r) : x.Solves c f.key r := by
  cases hl with
  | reuse hst hans hcur => exact hreuse n f _ _ _ _ _ hf hgo hst hans hcur
  | renew hst hans _ hres =>
      obtain ⟨hall, hsol⟩ := h.collect hc hs hf hst hans
      rw [h.held.context, Context.resolve_catalog_congr h.held.catalog] at hres
      exact .intro (h.held.reads_of_gathering hf hst) hall (fun q _ v hv => hsol q v hv) hres

/-! ### Moves -/

theorem Sound.quiet (h : Sound x c n₀ i₀ s) (hq : Quiet s u) : Sound x c n₀ i₀ u := by
  obtain ⟨⟨hcontext, hcatalog, hedges, hreads, hsolves, htracks⟩, hscope, hanswers⟩ := h
  cases hq
  exact ⟨⟨hcontext, hcatalog, hedges, hreads, hsolves, htracks⟩, hscope, hanswers⟩

theorem Held.tracks_stage (h : Held x c s) (hsteady : c.Steady) (hf : s.flights.call? n = some f)
    {st : SingleFlight.Status Phase Answer} (hstage : Stage s f u st) : Tracks x c f.key st := by
  cases hstage with
  | @held d _ hget _ =>
      have hd : c.entries.get? f.key = some d := h.catalog ▸ Catalog.get_eq_ok_iff.1 hget
      exact ⟨d, hd, (Catalog.result_fetch _ _).trans (hsteady _ d hd _)⟩
  | rechecks _ he _ _ => exact h.reads _ _ he
  | gathers hst hres hget hprep _ _ => exact h.reads_of_prepare hf hst hres hget hprep
  | _ => trivial

theorem Sound.correct_flight (h : Sound x c n₀ i₀ s) (hc : c.Keyed) (hs : Coherent s)
    (hreuse : Reuses x c s) (hf : s.flights.call? n = some f) (hm : FlightMove s n f u) {a : Answer}
    (hst : u.flights.call? n = some { f with status := .finished (.result a) }) :
    x.Correct c f.key a := by
  cases hm.stage hf hst with
  | failed hcause => exact hcause.not_solves h hc hs hf
  | @cyclic fetched raw d a' es paths hst' hres hget hprep hcyc =>
      -- the edges of the cycle are needs, old ones and those of the asset just loaded
      have hr := h.held.reads_of_prepare hf hst' hres hget hprep
      have hneeds : ∀ p q, (s.graph.setEdges f.key es).Adjacent p q → x.Needs c p q := by
        intro p q hpq
        rw [Graph.Adjacent, Graph.targetsOf,
          Graph.edgesOf_setEdges (hs.sorted_of_prepare hget hprep)] at hpq
        split at hpq
        · next hp => exact hp ▸ ⟨a', es, hr, hpq⟩
        · exact h.held.edges p q hpq
      have hcycle := TransGen.mono hneeds _ _ (Graph.transGen_of_cycleThrough? hcyc)
      exact fun r hr => hr.not_transGen hc hcycle
  | landed hgo hl _ => exact hl.solves h hc hs hreuse hf hgo

theorem Sound.held_move (h : Sound x c n₀ i₀ s) (hc : c.Keyed) (hsteady : c.Steady)
    (hs : Coherent s) (hreuse : Reuses x c s) (hm : Move s u) : Held x c u where
  context := hm.frame.1.trans h.held.context
  catalog := hm.frame.2.trans h.held.catalog
  edges p q hpq := by
    rcases hm.adjacent hs hpq with hpq | ⟨n, f, fetched, raw, d, a, es, hf, rfl, hst, hres, hd, hp, hq⟩
    · exact h.held.edges p q hpq
    · exact ⟨a, es, h.held.reads_of_prepare hf hst hres hd hp, hq⟩
  reads p e he := by
    rcases hm.entry hs he with ⟨e₀, he₀, ha, hr, -⟩ | ⟨n, f, m, hf, hgo, rfl, hl, hm, -⟩
    · exact ha ▸ hr ▸ h.held.reads p e₀ he₀
    · obtain ⟨-, e', he', -, hr, kept, children, hst⟩ := hl.get? hs hf hgo
      rw [hm] at he'; cases he'
      exact h.held.reads_of_gathering hf hst
  solves p e he hn := by
    rcases hm.entry hs he with ⟨e₀, he₀, -, hr, hn₀⟩ | ⟨n, f, m, hf, hgo, rfl, hl, -, -⟩
    · exact hr ▸ h.held.solves p e₀ he₀ (hn₀ hn)
    · exact hl.solves h hc hs hreuse hf hgo
  tracks n f hf := by
    cases hm.before hf with
    | same hf₀ hk hst _ => exact hk ▸ hst ▸ h.held.tracks n _ hf₀
    | begun _ hst _ => rw [hst]; trivial
    | moved hf₀ hm => exact h.held.tracks_stage hsteady hf₀ (hm.stage hf₀ hf)

/-- Every move keeps what is correct. -/
theorem Sound.move (h : Sound x c n₀ i₀ s) (hc : c.Keyed) (hsteady : c.Steady) (hs : Coherent s)
    (hreuse : Reuses x c s) (hm : Move s u) : Sound x c n₀ i₀ u := by
  refine ⟨h.held_move hc hsteady hs hreuse hm, h.scope.move hm, ?_⟩
  have hshift : Shift s u → Answers (x.Correct c) n₀ i₀ u.flights u.requests :=
    h.answers.shift h.scope hs (fun _ _ => h.held.not_solves_of_get) h.held.solves
  rcases hm with hm | ⟨n, hq | ⟨f, hf, hm⟩⟩
  · exact hshift hm
  · exact hshift (.lapse (.quiet hq))
  · exact h.answers.flight hf hm fun a hst => h.correct_flight hc hs hreuse hf hm hst

end Resolver

end HashedAssets
