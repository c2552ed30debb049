import HashedAssets.Proofs.Resolution.Sources
import HashedAssets.Proofs.Resolver.Agreement
import HashedAssets.Proofs.Resolver.Blame
import HashedAssets.Proofs.Resolver.Current
import HashedAssets.Proofs.Resolver.Meanwhile

/-!
# One operation at a time

A resolver is used by one caller: a source changes and is invalidated at once, everything is dropped, or
an asset is resolved, and each time the caller waits until nothing goes on any more.

* `Sequential`: the states that come of this, as long as what is resolved has a result;
* `Rested`: what holds of them; `Rested.change`, `Rested.clear`, `Rested.resolve`: each operation keeps
  it;
* `resolves_of_sequential`: what is resolved next is what a snapshot of the sources as they are holds.
-/

namespace HashedAssets.Resolver

open SingleFlight Relation

/-- The states of a resolver that is used by one caller, from a catalog on: sources change and are
invalidated, everything is dropped, and assets are resolved, with a result each time. -/
inductive Sequential (x : Context) (c : Catalog) : Resolver → Prop
  | make : Sequential x c (make x c none)
  | change {s : Resolver} (before : Sequential x c s) (path : String)
      (result : Except LoadFault Bytes) :
      Sequential x c ({ s with catalog := s.catalog.supply path result }.invalidate path).2
  | clear {s : Resolver} (before : Sequential x c s) : Sequential x c s.clear
  | resolve {s t : Resolver} {v : Resolved} (before : Sequential x c s) (path : String)
      (run : Run Action.Internal (s.ask (.logical path)).2 t) (settled : t.Settled)
      (result : t.outcome? s.requests.length = some (.result (.ok v))) : Sequential x c t

/-- A state in which nothing goes on and nothing has failed: what is kept has its edges, and what holds
while requests are answered holds of the requests to come. -/
structure Rested (x : Context) (c : Catalog) (len : Nat) (s : Resolver) : Prop where
  coherent : Coherent s
  unhurried : Unhurried s
  steady : c.Steady
  unwatched : s.watch = none
  empty : ∀ p, s.flights.slots.get? p = none
  ended : ∀ n f, s.flights.call? n = some f → ∃ v, f.status = .finished (.result (.ok v))
  answered : ∀ (i : Nat) r, s.requests[i]? = some r → r.caller.isDone = true
  mirrored : Mirrored s []
  current : Current x c len s.flights.calls.length s.requests.length s

variable {x : Context} {c : Catalog} {len : Nat} {n₀ n : CallId} {i₀ : RequestId} {s u t : Resolver}
  {p q : String}

/-! ### Nothing under way -/

theorem keyed_of_entries (hs : s.catalog.Keyed) (hc : s.catalog.entries = c.entries) : c.Keyed :=
  fun p d hd => hs p d (hc ▸ hd)

theorem Rested.keyed (h : Rested x c len s) : c.Keyed :=
  keyed_of_entries h.coherent.keyed h.current.sound.held.catalog

/-- What is kept has the edges of its result in the graph, and nothing else has any. -/
theorem Mirrored.edgesOf_of_ended (h : Mirrored s [])
    (hended : ∀ n f, s.flights.call? n = some f → ∃ v, f.status = .finished (.result (.ok v))) :
    (∀ p e, s.entries.get? p = some e → s.graph.edgesOf p = e.resolved.edges) ∧
      ∀ p, s.entries.get? p = none → s.graph.edgesOf p = [] := by
  refine ⟨fun p e he => (h.entry p e he).trans (if_neg (by simp)), fun p hp => ?_⟩
  by_contra hne
  obtain ⟨n, f, hf, -, hl⟩ := h.other p hp hne
  obtain ⟨v, hv⟩ := hended n f hf
  rcases hl with ⟨a, es, kept, children, hst⟩ | ⟨g, hst, -⟩
  · rw [hv] at hst; cases hst
  · rw [hv] at hst; cases hst

/-- The edges in the graph are those of results that are kept. -/
theorem Mirrored.exists_entry_of_adjacent (h : Mirrored s [])
    (hended : ∀ n f, s.flights.call? n = some f → ∃ v, f.status = .finished (.result (.ok v)))
    (hpq : s.graph.Adjacent p q) :
    ∃ e, s.entries.get? p = some e ∧ q ∈ Edge.targets e.resolved.edges := by
  obtain ⟨hkept, hother⟩ := h.edgesOf_of_ended hended
  rw [Graph.Adjacent, Graph.targetsOf] at hpq
  cases he : s.entries.get? p with
  | none => rw [hother p he] at hpq; cases hpq
  | some e => exact ⟨e, rfl, hkept p e he ▸ hpq⟩

/-- When nothing goes on, the flights and requests to come are a part of the run. -/
theorem Scope.rest (hempty : ∀ p, s.flights.slots.get? p = none)
    (hended : ∀ n f, s.flights.call? n = some f → ∃ v, f.status = .finished (.result (.ok v))) :
    Scope s.flights.calls.length s.requests.length s.flights s.requests where
  begun := Nat.le_refl _
  asked := Nat.le_refl _
  slots p n hn := by rw [hempty] at hn; cases hn
  waiting i r n hi hr _ := by rw [List.getElem?_eq_none hi] at hr; cases hr
  children n f a es kept children hf hst := by
    obtain ⟨v, hv⟩ := hended n f hf
    rw [hv] at hst; cases hst

/-- From a state in which nothing goes on, what holds is said of what is to come. -/
theorem Current.rest (h : Current x c len n₀ i₀ s) (hempty : ∀ p, s.flights.slots.get? p = none)
    (hended : ∀ n f, s.flights.call? n = some f → ∃ v, f.status = .finished (.result (.ok v))) :
    Current x c len s.flights.calls.length s.requests.length s where
  lengths := h.lengths
  sound := ⟨h.sound.held, .rest hempty hended, .beyond (Nat.le_refl _) (Nat.le_refl _)⟩
  wanted := h.wanted
  closed := h.closed
  results := h.results
  made := h.made
  formed := h.formed
  usable := .beyond (Nat.le_refl _) (Nat.le_refl _)

theorem Rested.make (hlen : ∀ b, (x.hash b).length = len) (hc : c.Keyed) (hsteady : c.Steady) :
    Rested x c len (make x c none) where
  coherent := .make hc none
  unhurried := .make x c none
  steady := hsteady
  unwatched := rfl
  empty p := rfl
  ended n f hf := by cases hf
  answered i r hr := by cases hr
  mirrored := .make x c none
  current :=
    { lengths := hlen
      sound := .make x c none
      wanted := rfl
      closed := fun p r hr => by obtain ⟨e, he, -⟩ := hr; cases he
      results := fun p e he => by cases he
      made := fun p e he => by cases he
      formed := fun r hr => by obtain ⟨n, f, hf, -⟩ := hr; cases hf
      usable := .beyond (Nat.le_refl _) (Nat.le_refl _) }

/-! ### Changes -/

theorem Lapse.watch_eq_none (hm : Lapse s u) (hw : s.watch = none) : u.watch = none := by
  cases hm with
  | quiet hq => cases hq with | intro _ _ _ _ _ _ hunwatched => exact hunwatched hw
  | drop _ => exact hw
  | defer _ => exact hw
  | mark _ => exact hw

theorem watch_eq_none_of_lapses (h : ReflTransGen Lapse s u) (hw : s.watch = none) :
    u.watch = none := by
  induction h with
  | refl => exact hw
  | tail _ hm ih => exact hm.watch_eq_none ih

/-- What has to be shown of what is left when kept results become outdated while nothing goes on: that it
goes with what the sources give now. -/
structure Left (x : Context) (c : Catalog) (len : Nat) (s u : Resolver) : Prop where
  wanted : u.dropOnLanding = []
  before : ∀ p e, u.entries.get? p = some e → ∃ e₀, s.entries.get? p = some e₀ ∧
    e₀.resolved = e.resolved
  reads : ∀ p e, u.entries.get? p = some e → x.Reads c p e.asset e.resolved.edges
  solves : ∀ p e, u.entries.get? p = some e → e.needsCheck = false → x.Solves c p e.resolved
  closed : ∀ p r, u.Usable p r → ∀ q ∈ Edge.targets r.edges, ∃ v, u.Usable q v
  made : ∀ p e, u.entries.get? p = some e → x.Made c s.Results e.asset e.resolved
  formed : ∀ r, s.Results r → x.Formed c len r

theorem Rested.left (h : Rested x c len s) {k c' : Catalog} (hk : k.Keyed)
    (hc' : k.entries = c'.entries) (hsteady : c'.Steady)
    (hl : ReflTransGen Lapse { s with catalog := k } u) (hleft : Left x c' len s u) :
    Rested x c' len u := by
  obtain ⟨hctx, hcat, hflights, hrequests⟩ := frame_of_lapses hl
  have hk' : Mirrored { s with catalog := k } [] :=
    ⟨h.mirrored.entry, h.mirrored.fresh, h.mirrored.other⟩
  obtain ⟨hcoh, hmir⟩ := hk'.lapses ⟨hk, h.coherent.graph, h.coherent.wired, h.coherent.tended⟩ hl
  have hun : Unhurried u := h.unhurried.congr hflights hrequests
  have hw : u.watch = none := watch_eq_none_of_lapses hl h.unwatched
  have hempty : ∀ p, u.flights.slots.get? p = none := fun p => by rw [hflights]; exact h.empty p
  have hended : ∀ n f, u.flights.call? n = some f → ∃ v, f.status = .finished (.result (.ok v)) :=
    fun n f hf => h.ended n f (by rw [hflights] at hf; exact hf)
  have hresults : u.Results = s.Results := results_congr hflights
  refine ⟨hcoh, hun, hsteady, hw, hempty, hended, fun i r hr => h.answered i r (hrequests ▸ hr), hmir, ?_⟩
  suffices hcur : Current x c' len s.flights.calls.length s.requests.length u from
    hcur.rest hempty hended
  refine
    { lengths := h.current.lengths
      sound :=
        { held :=
            { context := hctx.trans h.current.sound.held.context
              catalog := (congrArg Catalog.entries hcat).trans hc'
              edges := fun p q hpq => ?_
              reads := hleft.reads
              solves := hleft.solves
              tracks := fun n f hf => ?_ }
          scope := ?_
          answers := ?_ }
      wanted := hleft.wanted
      closed := hleft.closed
      results := fun p e he => ?_
      made := fun p e he => hresults ▸ hleft.made p e he
      formed := fun r hr => hleft.formed r (hresults ▸ hr)
      usable := ?_ }
  · obtain ⟨e, he, hq⟩ := hmir.exists_entry_of_adjacent hended hpq
    exact ⟨e.asset, e.resolved.edges, hleft.reads p e he, hq⟩
  · obtain ⟨v, hv⟩ := hended n f hf
    rw [hv]
    trivial
  · rw [hflights, hrequests]
    exact h.current.sound.scope
  · rw [hflights, hrequests]
    exact .beyond (Nat.le_refl _) (Nat.le_refl _)
  · obtain ⟨e₀, he₀, hr⟩ := hleft.before p e he
    rw [hresults, ← hr]
    exact h.current.results p e₀ he₀
  · rw [hflights, hrequests]
    exact .beyond (Nat.le_refl _) (Nat.le_refl _)

theorem supply_of_not_contains {result : Except LoadFault Bytes} (hp : ¬ c.contains p = true) :
    c.supply p result = c := by
  have hnone : c.entries.get? p = none := by
    simpa [Catalog.contains, PathMap.contains] using hp
  rw [Catalog.supply, PathMap.modify, hnone]

/-- What a kept result refers to follows its path in the graph. -/
theorem Rested.adjacent (h : Rested x c len s) {e : Entry} (he : s.entries.get? p = some e)
    (hq : q ∈ Edge.targets e.resolved.edges) : s.graph.Adjacent p q := by
  rw [Graph.Adjacent, Graph.targetsOf, (h.mirrored.edgesOf_of_ended h.ended).1 p e he]
  exact hq

/-- What needs an asset is dropped or marked, if it can be used: all on the way is kept. -/
theorem Rested.adjacent_of_needs (h : Rested x c len s) {r : Resolved} (hr : s.Usable q r)
    (hqp : ReflTransGen (x.Needs c) q p) : ReflTransGen s.graph.Adjacent q p := by
  induction hqp using ReflTransGen.head_induction_on generalizing r with
  | refl => exact .refl
  | @head a b hab _ ih =>
      obtain ⟨e, he, hn, rfl⟩ := hr
      obtain ⟨k, es, hreads, hmem⟩ := hab
      obtain ⟨-, rfl⟩ := hreads.unique (h.current.sound.held.reads a e he)
      obtain ⟨v, hv⟩ := h.current.closed a e.resolved ⟨e, he, hn, rfl⟩ b hmem
      exact .head (h.adjacent he hmem) (ih hv)

/-- What is left when a source has changed was kept before, and does not include the path. -/
theorem Rested.entry_left (h : Rested x c len s) (hp : s.catalog.contains p = true)
    {result : Except LoadFault Bytes} {e : Entry}
    (he : ({ s with catalog := s.catalog.supply p result }.invalidate p).2.entries.get? q = some e) :
    q ∉ (s.affected p).1 ∧
      ∃ e₀, s.entries.get? q = some e₀ ∧ e₀.asset = e.asset ∧ e₀.resolved = e.resolved := by
  obtain ⟨hdropped, e₀, he₀, ha, hr, -⟩ :=
    entry_invalidate (((s.catalog.alike_supply p result).contains p).trans hp) he
  exact ⟨fun hmem => hdropped hmem (h.empty q), e₀, he₀, ha, hr⟩

/-- What can be used then is what could be, as far as it does not need the path. -/
theorem Rested.usable_left (h : Rested x c len s) (hp : s.catalog.contains p = true)
    {result : Except LoadFault Bytes} {r : Resolved} :
    ({ s with catalog := s.catalog.supply p result }.invalidate p).2.Usable q r ↔
      s.Usable q r ∧ ¬ ReflTransGen s.graph.Adjacent q p := by
  have hp' := ((s.catalog.alike_supply p result).contains p).trans hp
  rw [← mem_affected h.coherent.graph, not_or]
  constructor
  · rintro ⟨e, he, hn, hr⟩
    obtain ⟨hdropped, e₀, he₀, -, -, hun⟩ := entry_invalidate hp' he
    obtain ⟨hmarked, rfl⟩ := hun hn
    exact ⟨⟨e₀, he₀, hn, hr⟩, fun hmem => hdropped hmem (h.empty q), hmarked⟩
  · rintro ⟨⟨e, he, hn, hr⟩, hq, hq'⟩
    refine ⟨e, ?_, hn, hr⟩
    rw [entries_invalidate_get? hp']
    exact (if_neg fun hmem => hq hmem.1).trans ((if_neg hq').trans he)

/-- What is left when a source has changed. -/
theorem Rested.left_supply (h : Rested x c len s) (hp : s.catalog.contains p = true)
    (result : Except LoadFault Bytes) : Left x (c.supply p result) len s
      ({ s with catalog := s.catalog.supply p result }.invalidate p).2 := by
  have halike := c.alike_supply p result
  refine ⟨List.eq_nil_iff_forall_not_mem.2 fun q hq => ?_, fun q e he => ?_, fun q e he => ?_,
    fun q e he hn => ?_, fun q r hr t ht => ?_, fun q e he => ?_,
    fun r hr => (h.current.formed r hr).alike halike⟩
  · have hp' := ((s.catalog.alike_supply p result).contains p).trans hp
    rcases (mem_dropOnLanding_invalidate hp').1 hq with hq | ⟨-, hbusy⟩
    · have hq' : q ∈ s.dropOnLanding := hq
      rw [h.current.wanted] at hq'
      cases hq'
    · exact hbusy (h.empty q)
  · obtain ⟨-, e₀, he₀, -, hr⟩ := h.entry_left hp he
    exact ⟨e₀, he₀, hr⟩
  · obtain ⟨hq, e₀, he₀, ha, hr⟩ := h.entry_left hp he
    have hqp : q ≠ p := fun hqp => hq (hqp ▸ self_mem_affected s q)
    rw [← ha, ← hr]
    exact (h.current.sound.held.reads q e₀ he₀).of_eq halike (c.get?_supply_of_ne hqp result)
  · -- what is not marked does not need the path
    obtain ⟨⟨e₀, he₀, hn₀, hr₀⟩, hqp⟩ := (h.usable_left hp).1 ⟨e, he, hn, rfl⟩
    rw [← hr₀]
    refine (h.current.sound.held.solves q e₀ he₀ hn₀).same halike fun b hqb => .supply ?_
    rintro rfl
    exact hqp (h.adjacent_of_needs ⟨e₀, he₀, hn₀, rfl⟩ hqb)
  · obtain ⟨⟨e, he, hn, rfl⟩, hqp⟩ := (h.usable_left hp).1 hr
    obtain ⟨v, hv⟩ := h.current.closed q e.resolved ⟨e, he, hn, rfl⟩ t ht
    exact ⟨v, (h.usable_left hp).2 ⟨hv, fun htp => hqp (.head (h.adjacent he ht) htp)⟩⟩
  · -- what includes the path is dropped
    obtain ⟨hq, e₀, he₀, ha, hr⟩ := h.entry_left hp he
    rw [← ha, ← hr]
    refine (h.current.made q e₀ he₀).same halike fun d hmem hk => .supply fun hdp => hq ?_
    exact mem_affected_of_include h.coherent.graph
      (((h.mirrored.edgesOf_of_ended h.ended).1 q e₀ he₀).symm ▸ hmem) hk
      (hdp ▸ self_mem_affected s _)

theorem Rested.change (h : Rested x c len s) (p : String) (result : Except LoadFault Bytes) :
    Rested x (c.supply p result) len
      ({ s with catalog := s.catalog.supply p result }.invalidate p).2 := by
  have hcat := h.current.sound.held.catalog
  have hentries : (s.catalog.supply p result).entries = (c.supply p result).entries := by
    rw [Catalog.supply, Catalog.supply, hcat]
  refine h.left h.coherent.keyed.supply hentries h.steady.supply (lapses_invalidate _ p) ?_
  by_cases hp : s.catalog.contains p = true
  · exact h.left_supply hp result
  · have hp' : ¬ c.contains p = true := by rwa [Catalog.contains, ← hcat]
    rw [supply_of_not_contains hp, supply_of_not_contains hp']
    have hsame : (s.invalidate p).2 = s := by
      unfold invalidate Catalog.get
      rw [show s.catalog.entries.get? p = none by
        simpa [Catalog.contains, PathMap.contains] using hp]
    rw [hsame]
    exact ⟨h.current.wanted, fun p e he => ⟨e, he, rfl⟩, h.current.sound.held.reads,
      h.current.sound.held.solves, h.current.closed, h.current.made, h.current.formed⟩

theorem Rested.clear (h : Rested x c len s) : Rested x c len s.clear := by
  have hnone : ∀ q, s.clear.entries.get? q = none := fun q => by
    rw [entries_clear_get?, if_pos (h.empty q)]
  have hwanted : s.clear.dropOnLanding = [] := List.eq_nil_iff_forall_not_mem.2 fun q hq => by
    rcases mem_dropOnLanding_clear.1 hq with hq | ⟨-, hbusy⟩
    · rw [h.current.wanted] at hq; cases hq
    · exact hbusy (h.empty q)
  refine h.left (k := s.catalog) h.coherent.keyed h.current.sound.held.catalog h.steady
    (lapses_clear s) ⟨hwanted, fun q e he => ?_, fun q e he => ?_,
      fun q e he => ?_, fun q r hr => ?_, fun q e he => ?_, h.current.formed⟩
  · rw [hnone] at he; cases he
  · rw [hnone] at he; cases he
  · rw [hnone] at he; cases he
  · obtain ⟨e, he, -⟩ := hr
    rw [hnone] at he; cases he
  · rw [hnone] at he; cases he

/-! ### Resolving an asset -/

/-- A path whose flight has failed, or was stopped. -/
def Fails (s : Resolver) (p : String) : Prop :=
  ∃ n f, s.flights.call? n = some f ∧ f.key = p ∧
    (f.status = .finished .cancelled ∨ ∃ g, f.status = .finished (.result (.error g)))

theorem Fails.move (h : s.Fails p) (hm : Move s u) : u.Fails p := by
  obtain ⟨n, f, hf, hk, hst | ⟨g, hst⟩⟩ := h
  · obtain ⟨f', hf', hk', hst'⟩ := hm.finished hf hst
    exact ⟨n, f', hf', hk'.trans hk, .inl hst'⟩
  · obtain ⟨f', hf', hk', hst'⟩ := hm.finished hf hst
    exact ⟨n, f', hf', hk'.trans hk, .inr ⟨g, hst'⟩⟩

theorem failed_of_turn {b : Bool} {f f' : Flight} (h : turn b f f' = some true) :
    f'.status = .finished .cancelled ∨ ∃ g, f'.status = .finished (.result (.error g)) := by
  unfold turn at h
  split at h
  · next hst => exact .inl hst
  · next hst => exact .inl hst
  · next hst => exact .inr ⟨_, hst⟩
  · split at h <;> cases h
  · split at h <;> cases h
  · cases h

/-- A path loses its edges when a flight for it fails. -/
theorem Course.fails {ok : Action → Prop} {lost : List String} (h : Course ok s t lost)
    (hs : Coherent s) (hm : Mirrored s []) (hok : ∀ a, ok a → a.Patient) :
    Mirrored t lost ∧ ∀ p ∈ lost, t.Fails p :=
  h.induction (P := fun s lost => Mirrored s lost ∧ ∀ p ∈ lost, s.Fails p) hs ⟨hm, by simp⟩
    (fun s u lost hs hP hm => ⟨hP.1.shift hs hm, fun p hp => (hP.2 p hp).move (.inl hm)⟩)
    (fun s u n lost hs hP hm => by
      refine ⟨hP.1.flightStep hs hm, fun p hp => ?_⟩
      rcases hm with hq | ⟨f, hf, hm⟩
      · rw [lostBy_of_flights_eq (by cases hq; rfl)] at hp
        exact (hP.2 p hp).move (.inr ⟨n, .inl hq⟩)
      · obtain ⟨st, hst, -⟩ := hm.call? hf
        rw [lostBy_eq hf hst] at hp
        rcases mem_lostWith hp with ⟨rfl, hturn⟩ | ⟨hp, -⟩
        · exact ⟨n, _, hst, rfl, failed_of_turn hturn⟩
        · exact (hP.2 p hp).move (.inr ⟨n, .inr ⟨f, hf, hm⟩⟩))
    (fun _ _ _ ⟨i, hi⟩ _ _ => (hok _ hi).elim)

/-- When nothing can go on, no flight that has ended is in a slot. -/
theorem Settled.not_finished (h : s.Settled) (hp : s.flights.slots.get? p = some n) {f : Flight}
    (hf : s.flights.call? n = some f) : f.isRunning = true := by
  by_contra hdone
  have hmem : Step.forget n ∈ s.ready := by
    refine forget_mem_ready.2 (List.mem_filter.2
      ⟨List.mem_map.2 ⟨(p, n), PathMap.get?_eq_some_iff.1 hp, rfl⟩, ?_⟩)
    rw [hf]
    simpa using hdone
  rw [h] at hmem
  cases hmem

theorem Rested.levelled (h : Rested x c len s) : Levelled (fun _ => 0) (fun _ => 0) s :=
  .rest (fun n f hf => by
    obtain ⟨v, hst⟩ := h.ended n f hf
    exact isRunning_eq_false_of_status hst) h.answered

/-- What holds when an asset is asked for while nothing goes on. -/
theorem Rested.ask (h : Rested x c len s) (q : String) :
    Coherent (s.ask (.logical q)).2 ∧ Unhurried (s.ask (.logical q)).2 ∧
      Mirrored (s.ask (.logical q)).2 [] ∧ Blamed s.requests.length (s.ask (.logical q)).2 ∧
      Current x c len s.flights.calls.length s.requests.length (s.ask (.logical q)).2 := by
  have hm : Shift s (s.ask (.logical q)).2 := .ask _
  have hfresh : ∀ r ∈ [(⟨.logical q, .fresh, false⟩ : Request)], r.caller = .fresh :=
    fun r hr => by rw [List.mem_singleton.1 hr]
  refine ⟨h.coherent.shift hm, h.unhurried.shift hm, h.mirrored.shift h.coherent hm,
    .ask h.answered h.ended _, ?_⟩
  obtain ⟨hlen, ⟨⟨h1, h2, h3, h4, h5, h6⟩, hscope, hanswers⟩, hwanted, hclosed, hresults, hmade,
    hformed, husable⟩ := h.current
  exact ⟨hlen, ⟨⟨h1, h2, h3, h4, h5, h6⟩, hscope.append hfresh, hanswers.append hfresh⟩, hwanted,
    hclosed, hresults, hmade, hformed, husable.append hfresh⟩

/-- What holds when a run has begun with an asset being asked for while nothing goes on. -/
theorem Rested.run (h : Rested x c len s) {q : String}
    (hrun : Run Action.Internal (s.ask (.logical q)).2 t) (hfree : CollisionFree x t) :
    Coherent t ∧ Unhurried t ∧ Blamed s.requests.length t ∧ t.watch = none ∧
      Current x c len s.flights.calls.length s.requests.length t ∧
      ∃ r, t.requests[s.requests.length]? = some r ∧ r.target = .logical q := by
  obtain ⟨hs, hun, -, hblamed, hcurrent⟩ := h.ask q
  obtain ⟨hw, hcur⟩ := hrun.current h.keyed h.steady h.unwatched hs hcurrent hfree
  have hfirst : (s.ask (.logical q)).2.requests[s.requests.length]?
      = some ⟨.logical q, .fresh, false⟩ := by
    show (s.requests ++ [_])[s.requests.length]? = _
    simp
  obtain ⟨-, hun', hblamed', hr⟩ := hrun.induction_advance h.unwatched
    (P := fun u => Unhurried u ∧ Blamed s.requests.length u ∧
      ∃ r, u.requests[s.requests.length]? = some r ∧ r.target = .logical q)
    ⟨hun, hblamed, _, hfirst, rfl⟩
    fun _ _ ⟨hun, hblamed, r, hr, ht⟩ hm => by
      obtain ⟨r', hr', ht'⟩ := hm.exists_request hr
      exact ⟨hun.move hm.move, hblamed.advance hun hm, r', hr', ht'.trans ht⟩
  exact ⟨hrun.coherent hs, hun', hblamed', hw, hcur, hr⟩

theorem Run.results (h : Run Action.Internal s t) {r : Resolved} (hr : s.Results r) : t.Results r :=
  h.induction (fun _ ha => ha.patient) (P := fun u => u.Results r) hr fun _ _ hr hm => hr.move hm

/-- When nothing can go on any more and the first of the later requests has a result, nothing goes on,
and nothing has failed. -/
theorem Blamed.rest (h : Blamed i₀ s) (hs : Coherent s) (hset : s.Settled) (hfirst : s.IsOk i₀) :
    (∀ p, s.flights.slots.get? p = none) ∧
      (∀ n f, s.flights.call? n = some f → ∃ v, f.status = .finished (.result (.ok v))) ∧
      ∀ (i : Nat) r, s.requests[i]? = some r → r.caller.isDone = true := by
  obtain ⟨hall, hended⟩ := h.all_ok hfirst
  refine ⟨fun p => ?_, hended, fun i r hr => ?_⟩
  · by_contra hne
    obtain ⟨n, hn⟩ := Option.ne_none_iff_exists'.1 hne
    obtain ⟨f, hf, -, -⟩ := hs.wired.slot p n hn
    obtain ⟨w, hst⟩ := hended n f hf
    exact not_finished_of_isRunning (hset.not_finished hn hf) _ hst
  · rcases Nat.lt_or_ge i i₀ with hlt | hge
    · obtain ⟨o, ho⟩ := h.answered i r hlt hr
      rw [ho]; rfl
    · obtain ⟨r', w, hr', hd⟩ := hall i hge (List.getElem?_eq_some_iff.1 hr).1
      rw [hr] at hr'; cases hr'
      rw [hd]; rfl

/-- No path has lost its edges where no flight has failed. -/
theorem Run.mirrored (hrun : Run Action.Internal s t) (hs : Coherent s) (hm : Mirrored s [])
    (hnone : ∀ p, ¬ t.Fails p) : Mirrored t [] := by
  obtain ⟨lost, hcourse⟩ := hrun.exists_course
  obtain ⟨hmirrored, hfails⟩ := hcourse.fails hs hm fun _ ha => ha.patient
  obtain rfl : lost = [] := List.eq_nil_iff_forall_not_mem.2 fun p hp => hnone p (hfails p hp)
  exact hmirrored

/-- An asset is resolved with a result: nothing has failed on the way, and all is as before. -/
theorem Rested.resolve (h : Rested x c len s) {q : String} {v : Resolved}
    (hrun : Run Action.Internal (s.ask (.logical q)).2 t) (hset : t.Settled)
    (hok : t.outcome? s.requests.length = some (.result (.ok v))) (hfree : CollisionFree x t) :
    Rested x c len t := by
  obtain ⟨hs, -, hmir, -, -⟩ := h.ask q
  obtain ⟨hs', hun', hblamed', hw, hcur, -⟩ := h.run hrun hfree
  obtain ⟨r, hr, hd⟩ := outcome?_eq_some_iff.1 hok
  obtain ⟨hempty, hended, hanswered⟩ := hblamed'.rest hs' hset ⟨r, v, hr, hd⟩
  refine ⟨hs', hun', h.steady, hw, hempty, hended, hanswered, hrun.mirrored hs hmir ?_,
    hcur.rest hempty hended⟩
  rintro p ⟨n, f, hf, -, hst⟩
  obtain ⟨w, hw⟩ := hended n f hf
  rcases hst with hst | ⟨g, hst⟩ <;> (rw [hw] at hst; cases hst)

/-- What holds of the states of a resolver that is used by one caller, as long as digests tell apart what
was hashed. -/
theorem Sequential.rested {c₀ : Catalog} (h : Sequential x c₀ s)
    (hlen : ∀ b, (x.hash b).length = len) (hc : c₀.Keyed) (hsteady : c₀.Steady)
    (hfree : CollisionFree x s) : ∃ c, Rested x c len s := by
  induction h with
  | make => exact ⟨c₀, .make hlen hc hsteady⟩
  | @change s _ p result ih =>
      have hflights := (frame_of_lapses
        (lapses_invalidate { s with catalog := s.catalog.supply p result } p)).2.2.1
      obtain ⟨c, hrested⟩ := ih (hfree.of_results fun r hr => results_congr hflights ▸ hr)
      exact ⟨c.supply p result, hrested.change p result⟩
  | @clear s _ ih =>
      have hflights := (frame_of_lapses (lapses_clear s)).2.2.1
      obtain ⟨c, hrested⟩ := ih (hfree.of_results fun r hr => results_congr hflights ▸ hr)
      exact ⟨c, hrested.clear⟩
  | @resolve s t v _ q hrun hset hok ih =>
      obtain ⟨c, hrested⟩ := ih (hfree.of_results fun r hr => hrun.results hr)
      exact ⟨c, hrested.resolve hrun hset hok hfree⟩

/-! ### What is resolved next -/

/-- When nothing can go on, a request has an outcome, if every asset resolves to something. -/
theorem not_pending_of_solves (hs : Coherent s) (hun : Unhurried s) (hsound : Sound x c n₀ i₀ s)
    (hc : c.Keyed) (hall : ∀ q, c.contains q = true → ∃ r, x.Solves c q r) (hset : s.Settled)
    (hheld : s.NothingHeld) : ¬ s.Pending := by
  rw [pending_iff_exists_circle hs hun hset hheld]
  rintro ⟨p, hp⟩
  have hneeds := TransGen.mono (fun _ _ => WaitsFor.needs hs hsound) _ _ hp
  obtain ⟨q, ⟨a, es, hreads, -⟩, -⟩ := TransGen.head'_iff.1 hneeds
  obtain ⟨r, hr⟩ := hall p hreads.contains
  exact hr.not_transGen hc hneeds

/-! ### A source that changes

In the sample the source of `b` gives something else after `a` has been resolved. -/

namespace Change

/-- The asset `a` is resolved for the first time. -/
def first : List Action :=
  [.step (.request 0), .step (.flight 0), .step (.request 1), .step (.flight 1), .step (.request 1),
    .step (.forget 1), .step (.flight 0), .step (.request 0), .step (.forget 0)]

/-- And for the second time. -/
def second : List Action :=
  [.step (.request 2), .step (.flight 2), .step (.request 3), .step (.flight 3), .step (.request 3),
    .step (.forget 3), .step (.flight 2), .step (.request 2), .step (.forget 2)]

/-- The state after `a` has been resolved. -/
def resolved : Resolver :=
  (((make Sample.context Sample.catalog none).ask (.logical "a")).2.play [] first).1

/-- The state after the source of `b` has changed. -/
def changed : Resolver :=
  ({ resolved with catalog := resolved.catalog.supply "b" (.ok (Bytes.ofText "two")) }.invalidate
    "b").2

/-- The state after `a` has been resolved once more. -/
def renewed : Resolver := ((changed.ask (.logical "a")).2.play [] second).1

/-- All this can happen, and the first time `a` is resolved and everything comes to rest. -/
theorem playable : ((make Sample.context Sample.catalog none).ask (.logical "a")).2.Playable first ∧
    (changed.ask (.logical "a")).2.Playable second ∧
    Sample.succeeds resolved 0 = true ∧ resolved.Settled := by
  decide +kernel

theorem run_first :
    Run Action.Internal ((make Sample.context Sample.catalog none).ask (.logical "a")).2 resolved :=
  (Course.refl.play playable.1 (by simp [first, Action.Internal])).run

theorem run_second : Run Action.Internal (changed.ask (.logical "a")).2 renewed :=
  (Course.refl.play playable.2.1 (by simp [second, Action.Internal])).run

theorem sequential_changed : Sequential Sample.context Sample.catalog changed := by
  obtain ⟨-, -, hsucceeds, hsettled⟩ := playable
  obtain ⟨v, hv⟩ := Sample.exists_of_succeeds (s := resolved) (i := 0) hsucceeds
  exact .change (.resolve .make "a" run_first hsettled hv) "b" (.ok (Bytes.ofText "two"))

/-- What was hashed for the results that flights have ended with. -/
def hashed (s : Resolver) : List Bytes :=
  s.flights.calls.filterMap fun c => match c.status with
    | .finished (.result (.ok r)) => some r.preimage
    | _ => none

theorem collisionFree_of_hashed
    (h : ∀ b ∈ hashed s, ∀ b' ∈ hashed s, x.hash b = x.hash b' → b = b') : CollisionFree x s := by
  have hmem : ∀ r, s.Results r → r.preimage ∈ hashed s := fun r ⟨n, f, hf, hst⟩ =>
    List.mem_filterMap.2 ⟨f, List.mem_of_getElem? hf, by rw [hst]⟩
  exact fun r r' hr hr' => h _ (hmem r hr) _ (hmem r' hr')

end Change

/-- Whoever uses a resolver alone gets for each asset what a snapshot of the sources as they are holds,
as soon as nothing can go on, and that is so at some time. -/
theorem resolves_of_sequential {c₀ : Catalog} (hc : c₀.Keyed) (hsteady : c₀.Steady)
    (hlen : ∀ b, (x.hash b).length = len) (h : Sequential x c₀ s) {q : String}
    (hrun : Run Action.Internal (s.ask (.logical q)).2 t) (hfree : CollisionFree x t)
    {snap : Snapshot} (hsnap : (Snapshot.build x s.catalog).1 = .ok snap)
    (hq : s.catalog.contains q = true) :
    (∀ o, t.outcome? s.requests.length = some o → ∃ r v, o = .result (.ok r) ∧
      snap.resolve q = .ok v ∧ r = { v with compressed := none }) ∧
    t.Ends ∧ (t.Settled → t.NothingHeld → t.outcome? s.requests.length ≠ none) := by
  obtain ⟨c, hrested⟩ := h.rested hlen hc hsteady (hfree.of_results fun r hr => hrun.results hr)
  obtain ⟨hs, hun, -, -, hcur, r, hr, ht⟩ := hrested.run hrun hfree
  have hcat := hrested.current.sound.held.catalog
  have hsteady' : s.catalog.Steady := fun p d hd => hrested.steady p d (hcat ▸ hd)
  have hsolves : ∀ p, c.contains p = true → ∃ v, snap.resolve p = .ok v ∧
      x.Solves c p { v with compressed := none } := fun p hp => by
    obtain ⟨v, hv, hsol⟩ := Snapshot.solves_of_build hrested.coherent.keyed hsteady' hsnap
      (q := p) (by rw [Catalog.contains, hcat]; exact hp)
    exact ⟨v, hv, hsol.congr hcat⟩
  obtain ⟨hs₀, hun₀, -⟩ := hrested.ask q
  refine ⟨fun o ho => ?_, hrun.ends (fun _ ha => ha.patient) hs₀ hun₀ (hrested.levelled.ask _),
    fun hset hheld hnone => ?_⟩
  · obtain ⟨r', hr', hd⟩ := outcome?_eq_some_iff.1 ho
    rw [hr] at hr'; cases hr'
    obtain ⟨v, hv, hsol⟩ := hsolves q (by rw [Catalog.contains, ← hcat]; exact hq)
    have hcorrect := fun a hd => hcur.sound.answers.requests _ r a q (Nat.le_refl _) hr hd ht
    cases o with
    | cancelled => exact absurd hd (hun.requests _ r hr).2
    | result a =>
        cases a with
        | error f => exact absurd hsol (hcorrect _ hd _)
        | ok w =>
            have hw : x.Solves c q w := hcorrect _ hd
            exact ⟨w, v, rfl, hv, hw.unique hsol⟩
  · have hall : ∀ p, c.contains p = true → ∃ v, x.Solves c p v := fun p hp => by
      obtain ⟨v, -, hv⟩ := hsolves p hp
      exact ⟨_, hv⟩
    refine not_pending_of_solves hs hun hcur.sound hrested.keyed hall hset hheld
      ⟨r, List.mem_of_getElem? hr, ?_⟩
    unfold outcome? at hnone
    rw [hr] at hnone
    rw [Caller.isDone, show r.caller.outcome? = none from hnone]
    rfl

/-- With the source that has changed: `a` is resolved to what a snapshot holds after the change. -/
theorem resolves_changed : ∃ snap r v, (Snapshot.build Sample.context Change.changed.catalog).1 = .ok snap ∧
    Change.renewed.outcome? Change.changed.requests.length = some (.result (.ok r)) ∧
    snap.resolve "a" = .ok v ∧ r = { v with compressed := none } := by
  have hbuild : (Snapshot.build Sample.context Change.changed.catalog).1.isOk = true := by
    decide +kernel
  obtain ⟨snap, hsnap⟩ : ∃ snap, (Snapshot.build Sample.context Change.changed.catalog).1 = .ok snap := by
    generalize (Snapshot.build Sample.context Change.changed.catalog).1 = b at hbuild ⊢
    match b, hbuild with
    | .ok snap, _ => exact ⟨snap, rfl⟩
  obtain ⟨hresult, -, hended⟩ := resolves_of_sequential Sample.keyed_catalog Sample.steady_catalog
    Sample.length_hash Change.sequential_changed (q := "a") Change.run_second
    (Change.collisionFree_of_hashed (by decide +kernel)) hsnap (by decide +kernel)
  obtain ⟨o, ho⟩ := Option.ne_none_iff_exists'.1 (hended (by decide +kernel) (by decide +kernel))
  obtain ⟨r, v, rfl, hv, hr⟩ := hresult o ho
  exact ⟨snap, r, v, hsnap, ho, hv, hr⟩

end HashedAssets.Resolver
