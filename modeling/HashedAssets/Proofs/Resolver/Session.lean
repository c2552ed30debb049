import HashedAssets.Proofs.Resolver.Loads
import HashedAssets.Proofs.Resolver.Teardown

/-!
# Callers that give up

Callers ask for assets, gates are opened and closed, callers are cancelled, and after each of these
everything goes on until nothing can. Then what is under way is just what somebody waits for who has
neither ended nor given up, and those who have not given up are served as if the others had not been there.

* `Rests`, `Session`: everything goes on until nothing can; any number of such steps;
* `Relies`, `Awaits`: a flight waits for a flight; a request waits for one, directly or through others;
* `exists_awaits`, `exists_held`: each flight under way has a caller who waits for it, and each caller who
  waits does so for a source that keeps its bytes back;
* `startsAfresh_of_idle`: what is left of a flight that was stopped;
* `awaited_of_session`: all of it.
-/

namespace HashedAssets.Resolver

open SingleFlight Relation

variable {x : Context} {cat : Catalog} {callers : List RequestId} {s t u : Resolver} {m n : CallId}
  {c : Flight} {p : String} {i j : RequestId} {r : Request}

/-! ### Sessions -/

/-- Everything that can go on has gone on, in any order, until nothing could. -/
def Rests (s t : Resolver) : Prop := ReflTransGen (fun s t => Follows t s) s t ∧ t.Settled

/-- What can happen to a resolver and its callers when each time everything goes on until nothing can. The
callers are noted by their requests, the latest first. -/
inductive Session (x : Context) (cat : Catalog) : Resolver → List RequestId → Prop
  | start : Session x cat (make x cat none) []
  | spawn {s t : Resolver} {callers : List RequestId} {p : String} (before : Session x cat s callers)
      (rests : Rests (s.ask (.logical p)).2 t) : Session x cat t (s.requests.length :: callers)
  | openGate {s t : Resolver} {callers : List RequestId} {g : String} (before : Session x cat s callers)
      (rests : Rests (s.openGate g) t) : Session x cat t callers
  | closeGate {s t : Resolver} {callers : List RequestId} {g : String} (before : Session x cat s callers)
      (rests : Rests (s.closeGate g) t) : Session x cat t callers
  | cancel {s t : Resolver} {callers : List RequestId} {i : RequestId} (before : Session x cat s callers)
      (caller : i ∈ callers) (rests : Rests (s.cancel i).2 t) : Session x cat t callers

/-- Each of the callers asks for a logical path. -/
def AskPaths (callers : List RequestId) (s : Resolver) : Prop :=
  ∀ i ∈ callers, ∃ r p, s.requests[i]? = some r ∧ r.target = .logical p

theorem AskPaths.of_targets (h : AskPaths callers s) (hkeep : ∀ {i : Nat} {r}, s.requests[i]? = some r →
    ∃ r', u.requests[i]? = some r' ∧ r'.target = r.target) : AskPaths callers u := fun i hi => by
  obtain ⟨r, p, hr, ht⟩ := h i hi
  obtain ⟨r', hr', ht'⟩ := hkeep hr
  exact ⟨r', p, hr', ht'.trans ht⟩

theorem AskPaths.follows (h : AskPaths callers s) (hw : s.watch = none) (hm : Follows u s) :
    AskPaths callers u := by
  have hsteps := hm.advances hw
  clear hm
  induction hsteps with
  | refl => exact h
  | tail _ hm ih => exact ih.of_targets fun hr => hm.exists_request hr

theorem Orderly.ask (h : Orderly callers s) (hs : Coherent s) (t : Target) :
    Orderly (s.requests.length :: callers) (s.ask t).2 := by
  have hreq : ∀ {j : Nat} {r}, (s.requests ++ [⟨t, .fresh, false⟩])[j]? = some r →
      s.requests[j]? = some r ∨ j = s.requests.length := fun {j r} hr => by
    rw [List.getElem?_append] at hr
    split at hr
    · exact .inl hr
    · next hle =>
        have hlt := (List.getElem?_eq_some_iff.1 hr).1
        rw [List.length_singleton] at hlt
        omega
  -- flights have asked before, so the new request is the child of none
  have hold : ∀ {j k r}, j ∈ s.childrenOf k → (s.requests ++ [⟨t, .fresh, false⟩])[j]? = some r →
      s.requests[j]? = some r := fun hj hr =>
    (hreq hr).resolve_right (Nat.ne_of_lt (lt_of_mem_childrenOf hs hj))
  refine ⟨⟨fun j hj => ?_, fun {j k} hj hmem => ?_, h.parted.disjoint, fun {j r} hr hdone hj => ?_,
    fun hd hgo hj hr => h.parted.going hd hgo hj (hold hj hr),
    fun hd hcan hj hr => h.parted.stopping hd hcan hj (hold hj hr)⟩,
    ⟨fun {j r} hr hst => ?_, h.honest.calls⟩, ⟨h.latest.running, h.latest.begun, h.latest.registered,
      h.latest.edged, h.latest.kept, h.latest.torn⟩⟩
  · show j < (s.requests ++ [_]).length
    rw [List.length_append, List.length_singleton]
    rcases List.mem_cons.1 hj with rfl | hj
    · exact Nat.lt_succ_self _
    · exact Nat.lt_succ_of_lt (h.parted.asked j hj)
  · rcases List.mem_cons.1 hmem with rfl | hmem
    · exact Nat.lt_irrefl _ (lt_of_mem_childrenOf hs hj)
    · exact h.parted.inner hj hmem
  · rw [List.mem_cons, not_or] at hj
    exact h.parted.parent ((hreq hr).resolve_right hj.1) hdone hj.2
  · rcases hreq hr with hr' | rfl
    · exact h.honest.requests hr' hst
    · have hlast : (s.requests ++ [(⟨t, .fresh, false⟩ : Request)])[s.requests.length]? = some r := hr
      simp only [List.getElem?_concat_length, Option.some.injEq] at hlast
      subst hlast
      cases hst

theorem Undisturbed.ask (h : Undisturbed s) (t : Target) : Undisturbed (s.ask t).2 where
  calls := h.calls
  requests {j r} hr hdone := by
    have hr' : (s.requests ++ [(⟨t, .fresh, false⟩ : Request)])[j]? = some r := hr
    rw [List.getElem?_append] at hr'
    split at hr'
    · exact h.requests hr' hdone
    · rw [List.mem_singleton.1 (List.mem_of_getElem? hr')]

/-- While nobody is disturbed everything may go on. -/
theorem Orderly.rests (h : Orderly callers s) (hu : Undisturbed s) (hf : Founded x cat s)
    (hc : cat.Keyed) (hsteady : cat.Steady) (hrests : Rests s t) : Founded x cat t ∧ Orderly callers t := by
  obtain ⟨hsteps, -⟩ := hrests
  have hall : Founded x cat t ∧ Orderly callers t ∧ Undisturbed t := by
    induction hsteps with
    | refl => exact ⟨hf, h, hu⟩
    | tail _ hm ih =>
        have hadvances := hm.advances ih.1.unwatched
        clear hm
        induction hadvances with
        | refl => exact ih
        | tail _ hm ih =>
            exact ⟨ih.1.advance hc hsteady hm, ih.2.1.advance ih.2.2 ih.1 hm⟩
  exact ⟨hall.1, hall.2.1⟩

/-- What has been cancelled is torn down. -/
theorem Tearing.rests (h : Tearing s) (ho : Orderly callers s) (hf : Founded x cat s)
    (hc : cat.Keyed) (hsteady : cat.Steady) (hrests : Rests s t) : Founded x cat t ∧ Orderly callers t := by
  obtain ⟨hsteps, -⟩ := hrests
  have hall : Founded x cat t ∧ Orderly callers t ∧ Tearing t := by
    induction hsteps with
    | refl => exact ⟨hf, ho, h⟩
    | tail _ hm ih => exact ⟨ih.1.follows hc hsteady hm, ih.2.2.follows ih.2.1 ih.1 hm⟩
  exact ⟨hall.1, hall.2.1⟩

theorem AskPaths.rests (h : AskPaths callers s) (hf : Founded x cat s) (hc : cat.Keyed)
    (hsteady : cat.Steady) (hrests : Rests s t) : AskPaths callers t := by
  obtain ⟨hsteps, -⟩ := hrests
  have hall : Founded x cat t ∧ AskPaths callers t := by
    induction hsteps with
    | refl => exact ⟨hf, h⟩
    | tail _ hm ih => exact ⟨ih.1.follows hc hsteady hm, ih.2.follows ih.1.unwatched hm⟩
  exact hall.2

/-- A gate is opened or closed, and then everything goes on. -/
theorem Orderly.rests_of_quiet (h : Orderly callers s) (hset : s.Settled) (hf : Founded x cat s)
    (hask : AskPaths callers u) (hc : cat.Keyed) (hsteady : cat.Steady) (hq : Quiet s u)
    (hrests : Rests u t) : Founded x cat t ∧ Orderly callers t ∧ AskPaths callers t ∧ t.Settled := by
  have hadvance : Advance s u := .calm (.quiet hq)
  have hfu := hf.advance hc hsteady hadvance
  obtain ⟨hou, hu⟩ := h.advance (hset.undisturbed hf.coherent h.parted) hf hadvance
  obtain ⟨hft, hot⟩ := hou.rests hu hfu hc hsteady hrests
  exact ⟨hft, hot, hask.rests hfu hc hsteady hrests, hrests.2⟩

/-- What holds at the end of a session. -/
theorem Session.orderly (hc : cat.Keyed) (hsteady : cat.Steady) (h : Session x cat s callers) :
    Founded x cat s ∧ Orderly callers s ∧ AskPaths callers s ∧ s.Settled := by
  induction h with
  | start => exact ⟨.make hc, .make x cat, fun i hi => absurd hi List.not_mem_nil, rfl⟩
  | @spawn s t callers p _ hrests ih =>
      obtain ⟨hf, ho, hask, hset⟩ := ih
      have hu := (hset.undisturbed hf.coherent ho.parted).ask (.logical p)
      have hf' := hf.ask hc hsteady (.logical p)
      obtain ⟨hft, hot⟩ := (ho.ask hf.coherent (.logical p)).rests hu hf' hc hsteady hrests
      refine ⟨hft, hot, AskPaths.rests (fun i hi => ?_) hf' hc hsteady hrests, hrests.2⟩
      rcases List.mem_cons.1 hi with rfl | hi
      · exact ⟨_, p, List.getElem?_concat_length, rfl⟩
      · obtain ⟨r, q, hr, hq⟩ := hask i hi
        exact ⟨r, q, (List.getElem?_append_left (List.getElem?_eq_some_iff.1 hr).1).trans hr, hq⟩
  | @openGate s t callers g _ hrests ih =>
      obtain ⟨hf, ho, hask, hset⟩ := ih
      have hask' : AskPaths callers (s.openGate g) := hask
      exact ho.rests_of_quiet hset hf hask' hc hsteady (.intro _ _ _ _ _ _ id) hrests
  | @closeGate s t callers g _ hrests ih =>
      obtain ⟨hf, ho, hask, hset⟩ := ih
      have hask' : AskPaths callers (s.closeGate g) := hask
      exact ho.rests_of_quiet hset hf hask' hc hsteady (.intro _ _ _ _ _ _ id) hrests
  | @cancel s t callers i _ hi hrests ih =>
      obtain ⟨hf, ho, hask, hset⟩ := ih
      have hu := hset.undisturbed hf.coherent ho.parted
      have htear := hset.tearing hf.coherent hu i
      have ho' := ho.cancel hi
      obtain ⟨rs, hrs, hh⟩ := cancel_eq s i
      have hf' : Founded x cat (s.cancel i).2 := hrs ▸ hf.hush hh
      have hask' : AskPaths callers (s.cancel i).2 := by
        rw [hrs]
        exact hask.of_targets fun hr => by
          obtain ⟨r', hr', ht, -⟩ := hh.symm.exists_eq hr
          exact ⟨r', hr', ht⟩
      obtain ⟨hft, hot⟩ := htear.rests ho' hf' hc hsteady hrests
      exact ⟨hft, hot, hask'.rests hf' hc hsteady hrests, hrests.2⟩

/-! ### Who waits for what -/

/-- A flight waits for a flight: one of its requests does. -/
def Relies (s : Resolver) (m n : CallId) : Prop :=
  ∃ j ∈ s.childrenOf m, ∃ r, s.requests[j]? = some r ∧ r.caller = .waiting n

/-- A request waits for a flight, directly or through flights that wait for one another. -/
inductive Awaits (s : Resolver) (i : RequestId) : CallId → Prop
  | direct {r : Request} {n : CallId} (request : s.requests[i]? = some r)
      (waits : r.caller = .waiting n) : Awaits s i n
  | through {m n : CallId} (awaits : Awaits s i m) (relies : s.Relies m n) : Awaits s i n

/-- A request has neither ended nor been cancelled. -/
def Persists (s : Resolver) (i : RequestId) : Prop :=
  ∃ r, s.requests[i]? = some r ∧ r.cancelled = false ∧ r.caller.isDone = false

/-- A flight is under way and no caller waits for it who has neither ended nor given up. -/
def Orphaned (s : Resolver) (callers : List RequestId) (n : CallId) : Prop :=
  (∃ c, s.flights.call? n = some c ∧ c.isRunning = true) ∧
    ¬ ∃ i ∈ callers, s.Persists i ∧ s.Awaits i n

section Settled

variable (hset : s.Settled) (hf : Founded x cat s) (ho : Orderly callers s)

include hset hf ho

/-- When nothing can go on, whoever waits does so for a flight under way that has not been asked to stop. -/
theorem Settled.going_of_waiting (hr : s.requests[i]? = some r) (hw : r.caller = .waiting n) :
    ∃ c, s.flights.call? n = some c ∧ c.isRunning = true ∧ c.cancelled = false := by
  obtain ⟨c, hc, -⟩ := hf.coherent.wired.waiting i r n hr hw
  have hgo : r.cancelled = false :=
    (hset.undisturbed hf.coherent ho.parted).requests hr (by rw [hw]; rfl)
  have hready := hset.requestReady hr
  refine ⟨c, hc, ?_, hf.going_of_waiting hr hw hc⟩
  simpa [Resolver.requestReady, hw, Table.answer?, hgo, hc, Call.outcome?_eq_none_iff] using hready

theorem Settled.going_of_awaits (h : s.Awaits i n) :
    ∃ c, s.flights.call? n = some c ∧ c.isRunning = true ∧ c.cancelled = false := by
  cases h with
  | direct hr hw => exact hset.going_of_waiting hf ho hr hw
  | through _ hrelies =>
      obtain ⟨j, -, r, hr, hw⟩ := hrelies
      exact hset.going_of_waiting hf ho hr hw

/-- A flight waits for flights for what its asset has edges to. -/
theorem Settled.adjacent_of_relies (h : s.Relies m n) : s.graph.Adjacent (s.pathOf m) (s.pathOf n) := by
  obtain ⟨j, hj, r, hr, hw⟩ := h
  obtain ⟨c, a, es, kept, children, hc, hst, hmem⟩ := exists_of_mem_childrenOf hj
  obtain ⟨d, hd, hallows⟩ := hf.coherent.wired.waiting j r n hr hw
  obtain ⟨r', q, hr', htarget, hq⟩ := hf.coherent.wired.exists_child hc hst hmem
  obtain rfl : r = r' := Option.some.inj (hr.symm.trans hr')
  have hgo := (hset.undisturbed hf.coherent ho.parted).calls hc (isRunning_of_status hst)
  have hm : s.pathOf m = c.key := by simp [pathOf, hc]
  have hn : s.pathOf n = q := by simp [pathOf, hd, hallows q htarget]
  rw [hm, hn, Graph.adjacent_iff, ho.latest.edged hc hgo hst]
  exact Edge.mem_targets.1 hq

/-- Flights do not wait for one another in a circle. -/
theorem Settled.not_relies_circle (n : CallId) : ¬ TransGen s.Relies n n := fun h =>
  hf.acyclic _ (TransGen.lift s.pathOf (fun _ _ => hset.adjacent_of_relies hf ho) _ _ h)

/-- Each flight under way has a caller who waits for it, or a flight that does and has none either. -/
theorem Settled.exists_orphaned (h : s.Orphaned callers n) : ∃ m, s.Orphaned callers m ∧ s.Relies m n := by
  obtain ⟨⟨c, hc, hrun⟩, hnone⟩ := h
  have hu := hset.undisturbed hf.coherent ho.parted
  have hwaiters := hf.counted.attended hc hrun (hu.calls hc hrun)
  rw [hf.counted.waiters hc, awaiting, List.countP_pos_iff] at hwaiters
  obtain ⟨r, hmem, hw⟩ := hwaiters
  have hw := Caller.awaits_iff.1 hw
  obtain ⟨j, hj⟩ := List.getElem?_of_mem hmem
  have hundone : r.caller.isDone = false := by rw [hw]; rfl
  by_cases hcaller : j ∈ callers
  · exact absurd ⟨j, hcaller, ⟨r, hj, hu.requests hj hundone, hundone⟩, .direct hj hw⟩ hnone
  · obtain ⟨m, hm⟩ := ho.parted.parent hj hundone hcaller
    have hrelies : s.Relies m n := ⟨j, hm, r, hj, hw⟩
    obtain ⟨d, a, es, kept, children, hd, hst, -⟩ := exists_of_mem_childrenOf hm
    refine ⟨m, ⟨⟨d, hd, isRunning_of_status hst⟩, ?_⟩, hrelies⟩
    rintro ⟨i, hi, hpersists, hawaits⟩
    exact hnone ⟨i, hi, hpersists, hawaits.through hrelies⟩

/-- For every flight under way there is a caller who waits for it: up the flights that wait for it there is
a first, for they do not wait in a circle. -/
theorem Settled.exists_awaits (hc : s.flights.call? n = some c) (hrun : c.isRunning = true) :
    ∃ i ∈ callers, s.Persists i ∧ s.Awaits i n := by
  by_contra hnobody
  obtain ⟨k, -, hcircle⟩ := exists_circle (P := s.Orphaned callers)
    (l := List.range s.flights.calls.length) (r := fun a b => s.Relies b a)
    (fun k ⟨⟨d, hd, _⟩, _⟩ => List.mem_range.2 (Table.lt_of_call?_eq_some hd))
    (fun k hk => hset.exists_orphaned hf ho hk) ⟨⟨c, hc, hrun⟩, hnobody⟩
  exact hset.not_relies_circle hf ho k hcircle.swap

omit hf ho in
theorem Settled.exists_waiting (hr : s.requests[i]? = some r) (hdone : r.caller.isDone = false) :
    ∃ n, r.caller = .waiting n := by
  have hready := hset.requestReady hr
  cases hcaller : r.caller with
  | fresh => rw [Resolver.requestReady, hcaller] at hready; cases hready
  | waiting n => exact ⟨n, rfl⟩
  | done o => rw [hcaller] at hdone; cases hdone

omit ho in
/-- A flight under way waits for its source, or for another flight. -/
theorem Settled.exists_relies (hc : s.flights.call? n = some c) (hrun : c.isRunning = true)
    (hgo : c.cancelled = false) : s.isHeld c = true ∨ ∃ m, s.Relies n m := by
  have hready := hset.flightReady hc
  cases hst : c.status with
  | finished o => exact absurd hst (not_finished_of_isRunning hrun o)
  | running w => cases w with
    | launched => rw [Resolver.flightReady, hst] at hready; cases hready
    | loading fetched =>
        left
        simpa [isHeld, hst, Resolver.flightReady, hgo] using hready
    | gathering a es kept children =>
        rw [Resolver.flightReady, hst, ← Bool.not_eq_true, List.all_eq_true] at hready
        simp only [not_forall] at hready
        obtain ⟨j, hj, hun⟩ := hready
        obtain ⟨r', q, hr', -⟩ := hf.coherent.wired.exists_child hc hst hj
        rw [isSome_outcome?_iff hr', Bool.not_eq_true] at hun
        obtain ⟨m, hm⟩ := hset.exists_waiting hr' hun
        exact .inr ⟨m, j, by rwa [childrenOf_of_gathering hc hst], r', hr', hm⟩

/-- Who waits does so for a source that keeps its bytes back: down the flights that its flight waits for
there is a last. -/
theorem Settled.exists_held (hr : s.requests[i]? = some r) (hdone : r.caller.isDone = false) :
    ∃ n c, s.Awaits i n ∧ s.flights.call? n = some c ∧ s.isHeld c = true := by
  by_contra hnone
  obtain ⟨n, hw⟩ := hset.exists_waiting hr hdone
  have hstep : ∀ k, s.Awaits i k → ∃ l, s.Awaits i l ∧ s.Relies k l := fun k hk => by
    obtain ⟨d, hd, hrun, hgo⟩ := hset.going_of_awaits hf ho hk
    rcases hset.exists_relies hf hd hrun hgo with hheld | ⟨l, hl⟩
    · exact absurd ⟨k, d, hk, hd, hheld⟩ hnone
    · exact ⟨l, hk.through hl, hl⟩
  obtain ⟨k, -, hcircle⟩ := exists_circle (P := s.Awaits i) (l := List.range s.flights.calls.length)
    (r := s.Relies)
    (fun k hk => by
      obtain ⟨d, hd, -⟩ := hset.going_of_awaits hf ho hk
      exact List.mem_range.2 (Table.lt_of_call?_eq_some hd)) hstep (.direct hr hw)
  exact hset.not_relies_circle hf ho k hcircle

/-! ### Flights that were stopped -/

/-- A path whose last flight is over with nothing kept is as if it had never been asked for. -/
theorem Settled.idle_of_last (hc : s.flights.call? n = some c) (hst : c.status = .finished .cancelled)
    (hlast : s.Last c.key n) : s.flights.slots.get? c.key = none ∧ s.entries.get? c.key = none := by
  constructor
  · cases hslot : s.flights.slots.get? c.key with
    | none => rfl
    | some k =>
        obtain ⟨d, hd, hkey, -⟩ := hf.coherent.wired.slot c.key k hslot
        have hrun := hset.isRunning_of_slot hslot hd
        obtain rfl : k = n := Nat.le_antisymm (hlast k d hd hkey)
          (ho.latest.running hd hrun n c hc hkey.symm)
        obtain rfl : c = d := Option.some.inj (hc.symm.trans hd)
        exact absurd hst (not_finished_of_isRunning hrun _)
  · cases he : s.entries.get? c.key with
    | none => rfl
    | some e =>
        obtain ⟨k, d, hd, hkey, hst', hlast'⟩ := ho.latest.kept he
        obtain rfl : k = n := Nat.le_antisymm (hlast k d hd hkey) (hlast' n c hc rfl)
        obtain rfl : c = d := Option.some.inj (hc.symm.trans hd)
        rw [hst] at hst'
        cases hst'

end Settled

/-- The next request for a path begins a flight of its own, and the first thing that this does is to load
the source. -/
def StartsAfresh (s : Resolver) (p : String) : Prop :=
  let t := (s.ask (.logical p)).2.runRequest s.requests.length
  t.flights.started = s.flights.started + 1 ∧
    t.flights.call? s.flights.started = some ⟨p, .running .launched, 1, false⟩ ∧
    t.requests[s.requests.length]? = some ⟨.logical p, .waiting s.flights.started, false⟩ ∧
    ∃ d, s.catalog.get p = .ok d ∧ t.loadBy? (.step (.flight s.flights.started)) = some d

/-- A request for a path for which nothing is under way or kept begins a flight. -/
theorem runRequest_of_idle {d : Definition} (hr : s.requests[i]? = some ⟨.logical p, .fresh, false⟩)
    (hget : s.catalog.get p = .ok d) (hidle : s.flights.slots.get? p = none)
    (hnone : s.entries.get? p = none) :
    s.runRequest i = { s with
      stats := { s.stats with misses := s.stats.misses + 1 }
      flights := ⟨s.flights.slots.insert p s.flights.calls.length,
        s.flights.calls ++ [(⟨p, .running .launched, 1, false⟩ : Flight)]⟩ }.setCaller i
          (.waiting s.flights.calls.length) := by
  have hkept : s.kept? p = (none, s) := by
    unfold kept?
    rw [if_pos (by simp [PathMap.contains, hnone])]
  unfold runRequest
  rw [hr]
  dsimp only
  rw [if_neg (by decide)]
  unfold Resolver.request
  rw [hget]
  dsimp only
  rw [hkept]
  dsimp only
  rw [Table.attach_of_none hidle]
  dsimp only
  -- the new flight has no answer yet
  unfold takeAnswer
  rw [getElem?_setCaller, if_pos rfl, hr]
  simp [Table.answer?, setCaller, Table.call?_append, Call.outcome?]

theorem startsAfresh_of_idle (hreg : s.catalog.contains p = true)
    (hidle : s.flights.slots.get? p = none) (hnone : s.entries.get? p = none) : s.StartsAfresh p := by
  obtain ⟨d, hd⟩ := Catalog.contains_iff.1 hreg
  have hget : s.catalog.get p = .ok d := Catalog.get_eq_ok_iff.2 hd
  have hasked : (s.ask (.logical p)).2.requests[s.requests.length]? = some ⟨.logical p, .fresh, false⟩ :=
    List.getElem?_concat_length
  have hrun := runRequest_of_idle (s := (s.ask (.logical p)).2) hasked hget hidle hnone
  unfold StartsAfresh
  dsimp only
  rw [hrun]
  have hcall : Table.call? (⟨s.flights.slots.insert p s.flights.calls.length,
      s.flights.calls ++ [(⟨p, .running .launched, 1, false⟩ : Flight)]⟩ : Table Phase Answer)
      s.flights.calls.length = some ⟨p, .running .launched, 1, false⟩ := by
    rw [Table.call?_append, if_pos rfl]
  refine ⟨List.length_append, hcall, ?_, d, hget, ?_⟩
  · rw [getElem?_setCaller, if_pos rfl]
    exact congrArg (Option.map _) hasked
  · refine (congrArg (Option.bind · _) hcall).trans ?_
    show (if false = true ∨ ((s.entries.get? p).any _) = true then none else (s.catalog.get p).toOption) = _
    rw [hnone, hget]
    rfl

/-- Nothing is left of a flight that was stopped. -/
theorem Settled.torn (hset : s.Settled) (hf : Founded x cat s) (ho : Orderly callers s)
    (hc : s.flights.call? n = some c) (hst : c.status = .finished .cancelled) (hlast : s.Last c.key n) :
    s.state c.key = .unresolved ∧ s.graph.edgesOf c.key = [] ∧ s.StartsAfresh c.key := by
  obtain ⟨hidle, hnone⟩ := hset.idle_of_last hf ho hc hst hlast
  refine ⟨?_, ho.latest.torn hc hst hlast, startsAfresh_of_idle (ho.latest.registered hc) hidle hnone⟩
  simp [state, Table.inFlight, PathMap.contains, hidle, hnone]

/-! ### What those get who have not given up -/

/-- Both have got the same result, or both have failed. -/
def SameVerdict : Outcome Answer → Outcome Answer → Prop
  | .result (.ok v), .result (.ok v') => v = v'
  | .result (.error _), .result (.error _) => True
  | _, _ => False

/-- A request that has not been cancelled ends with the result of its asset, or fails if there is none. -/
theorem correct_of_done (hf : Founded x cat s) (ho : Orderly callers s) (hr : s.requests[i]? = some r)
    (ht : r.target = .logical p) (hgo : r.cancelled = false) {o : Outcome Answer}
    (hdone : r.caller = .done o) : ∃ a, o = .result a ∧ x.Correct cat p a := by
  cases o with
  | cancelled => exact absurd ((ho.honest.requests hr hdone).symm.trans hgo) (by decide)
  | result a => exact ⟨a, rfl, hf.sound.answers.requests i r a p (Nat.zero_le _) hr hdone ht⟩

theorem sameVerdict_of_correct {a a' : Answer} (h : x.Correct cat p a) (h' : x.Correct cat p a') :
    SameVerdict (.result a) (.result a') := by
  cases a with
  | ok v => cases a' with
    | ok v' => exact Context.Solves.unique h h'
    | error f => exact absurd h (h' v)
  | error f => cases a' with
    | ok v => exact absurd h' (h v)
    | error f' => trivial

/-! ### A sample

`early` and `late` refer to `shared`, whose source waits at a gate. Somebody asks for `early` and somebody
else for `late`; then the first gives up. -/

theorem reflTransGen_of_play {as : List Step} {lost : List String} (h : s.Playable (as.map .step)) :
    ReflTransGen (fun s t => Follows t s) s (s.play lost (as.map .step)).1 := by
  induction as generalizing s lost with
  | nil => exact .refl
  | cons y rest ih => exact .head ⟨y, h.1, rfl⟩ (ih h.2)

/-- The state after the steps of a list. -/
def after (s : Resolver) (as : List Step) : Resolver := (s.play [] (as.map .step)).1

theorem rests_after {as : List Step} (h : s.Playable (as.map .step)) (hset : (s.after as).Settled) :
    Rests s (s.after as) := ⟨reflTransGen_of_play h, hset⟩

instance (s : Resolver) (p : String) (n : CallId) : Decidable (s.Last p n) :=
  decidable_of_iff (∀ m < s.flights.calls.length, (s.flights.call? m).map (·.key) = some p → m ≤ n) <| by
    constructor
    · intro h m c hc hk
      exact h m (Table.lt_of_call?_eq_some hc) (by rw [hc, Option.map_some, hk])
    · intro h m _ hm
      obtain ⟨c, hc, hk⟩ := Option.map_eq_some_iff.1 hm
      exact h m c hc hk

namespace Quitter

/-- The three assets. -/
def catalog : Catalog :=
  (((∅ : Catalog).add
    ⟨"early", .static (Bytes.ofText "{{: path:shared :}}"), ({} : Choices).options true, by decide⟩).add
    ⟨"late", .static (Bytes.ofText "{{: path:shared :}}"), ({} : Choices).options true, by decide⟩).add
    ⟨"shared", .dynamic (.varying (fun _ => .ok (Bytes.ofText "one")) (some "gate")) none,
      ({} : Choices).options true, by decide⟩

theorem keyed_catalog : catalog.Keyed := ((Catalog.keyed_empty.add _).add _).add _

theorem steady_catalog : catalog.Steady :=
  ((Catalog.steady_empty.add fun _ => rfl).add fun _ => rfl).add fun _ => rfl

/-- The resolver before any request. -/
def initial : Resolver := make Sample.context catalog none

/-- `early` has been asked for. -/
def one : Resolver := (initial.ask (.logical "early")).2.after
  [.request 0, .flight 0, .request 1, .flight 1]

/-- `late` has been asked for. -/
def two : Resolver := (one.ask (.logical "late")).2.after [.request 2, .flight 2, .request 3]

/-- Who asked for `early` has given up. -/
def torn : Resolver := (two.cancel 0).2.after [.request 0, .request 1, .flight 0]

/-- The gate has been opened. -/
def served : Resolver := (torn.openGate "gate").after
  [.flight 1, .request 3, .forget 1, .flight 2, .request 2, .forget 2]

/-- Only `late` is asked for. -/
def alone : Resolver := (initial.ask (.logical "late")).2.after
  [.request 0, .flight 0, .request 1, .flight 1]

/-- The gate is opened. -/
def aloneServed : Resolver := (alone.openGate "gate").after
  [.flight 1, .request 1, .forget 1, .flight 0, .request 0, .forget 0]

theorem session_one : Session Sample.context catalog one [0] :=
  .spawn .start (rests_after (by decide +kernel) (by decide +kernel))

theorem session_two : Session Sample.context catalog two [2, 0] := by
  have h : Session Sample.context catalog two [one.requests.length, 0] :=
    session_one.spawn (rests_after (by decide +kernel) (by decide +kernel))
  rwa [show one.requests.length = 2 by decide +kernel] at h

theorem session_torn : Session Sample.context catalog torn [2, 0] :=
  session_two.cancel (by simp) (rests_after (by decide +kernel) (by decide +kernel))

theorem session_served : Session Sample.context catalog served [2, 0] :=
  session_torn.openGate (rests_after (by decide +kernel) (by decide +kernel))

theorem session_alone : Session Sample.context catalog alone [0] :=
  .spawn .start (rests_after (by decide +kernel) (by decide +kernel))

theorem session_aloneServed : Session Sample.context catalog aloneServed [0] :=
  session_alone.openGate (rests_after (by decide +kernel) (by decide +kernel))

end Quitter

/-- **Only what nobody waits for is torn down.** After every step of a session:

* a path is in flight just if there is a caller who waits for it and has neither ended nor given up;
* a flight that was asked to stop has ended, and unless its path was asked for again nothing is left of it:
  the path is unresolved, it has no edges, and the next request loads its source;
* a caller who has not given up and still waits does so for a source that keeps its bytes back. One who has
  ended has the result of the asset, or a failure if there is none. So whatever else was asked and given up,
  in this session or any other with the same sources, all of them have got the same. -/
theorem awaited_of_session (hc : cat.Keyed) (hsteady : cat.Steady) (h : Session x cat s callers) :
    (∀ p, s.flights.inFlight p = true ↔ ∃ i ∈ callers, s.Persists i ∧
      ∃ n c, s.Awaits i n ∧ s.flights.call? n = some c ∧ c.key = p) ∧
    (∀ n c, s.flights.call? n = some c → c.cancelled = true → c.status = .finished .cancelled ∧
      (s.Last c.key n →
        s.state c.key = .unresolved ∧ s.graph.edgesOf c.key = [] ∧ s.StartsAfresh c.key)) ∧
    ∀ i ∈ callers, ∃ r p, s.requests[i]? = some r ∧ r.target = .logical p ∧ (r.cancelled = false →
      (r.caller.isDone = false →
        ∃ n c, s.Awaits i n ∧ s.flights.call? n = some c ∧ s.isHeld c = true) ∧
      ∀ o, r.caller = .done o → (∃ a, o = .result a ∧ x.Correct cat p a) ∧
        ∀ t others, Session x cat t others → ∀ j ∈ others, ∀ r', t.requests[j]? = some r' →
          r'.target = .logical p → r'.cancelled = false → ∀ o', r'.caller = .done o' →
          SameVerdict o o') := by
  obtain ⟨hf, ho, hask, hset⟩ := h.orderly hc hsteady
  have hu := hset.undisturbed hf.coherent ho.parted
  refine ⟨fun p => ⟨fun hp => ?_, ?_⟩, fun n c hcall hcan => ?_, fun i hi => ?_⟩
  · obtain ⟨n, hn⟩ := Option.isSome_iff_exists.1 hp
    obtain ⟨c, hcall, hkey, -⟩ := hf.coherent.wired.slot p n hn
    have hrun : c.isRunning = true := hset.isRunning_of_slot hn hcall
    obtain ⟨i, hi, hpersists, hawaits⟩ := hset.exists_awaits hf ho hcall hrun
    exact ⟨i, hi, hpersists, n, c, hawaits, hcall, hkey⟩
  · rintro ⟨i, -, -, n, c, hawaits, hcall, rfl⟩
    obtain ⟨d, hd, hrun, hgo⟩ := hset.going_of_awaits hf ho hawaits
    obtain rfl : c = d := Option.some.inj (hcall.symm.trans hd)
    exact Option.isSome_iff_exists.2 ⟨n, hf.coherent.wired.held n c hcall hrun hgo⟩
  · have hover : c.status = .finished .cancelled := by
      cases hst : c.status with
      | running w =>
          exact absurd (hcan.symm.trans (hu.calls hcall (isRunning_of_status hst))) (by decide)
      | finished o => rw [(ho.honest.calls hcall hst).2 hcan]
    exact ⟨hover, hset.torn hf ho hcall hover⟩
  · obtain ⟨r, p, hr, ht⟩ := hask i hi
    refine ⟨r, p, hr, ht, fun hgo => ⟨hset.exists_held hf ho hr, fun o hdone => ?_⟩⟩
    obtain ⟨a, rfl, ha⟩ := correct_of_done hf ho hr ht hgo hdone
    refine ⟨⟨a, rfl, ha⟩, fun t others h' j _ r' hr' ht' hgo' o' hdone' => ?_⟩
    obtain ⟨hf', ho', -⟩ := h'.orderly hc hsteady
    obtain ⟨a', rfl, ha'⟩ := correct_of_done hf' ho' hr' ht' hgo' hdone'
    exact sameVerdict_of_correct ha ha'

/-- In the sample: `shared` stays in flight for who asked for `late`, nothing is left of `early`, and in the
end `late` is what it is for one who asks alone. -/
theorem awaited_quitter :
    (∃ i ∈ [2, 0], Quitter.torn.Persists i ∧
      ∃ n c, Quitter.torn.Awaits i n ∧ Quitter.torn.flights.call? n = some c ∧ c.key = "shared") ∧
    (Quitter.torn.state "early" = .unresolved ∧ Quitter.torn.graph.edgesOf "early" = [] ∧
      Quitter.torn.StartsAfresh "early") ∧
    ∃ o o', Quitter.served.outcome? 2 = some o ∧ Quitter.aloneServed.outcome? 0 = some o' ∧
      SameVerdict o o' := by
  obtain ⟨hflight, htorn, -⟩ := awaited_of_session Quitter.keyed_catalog Quitter.steady_catalog
    Quitter.session_torn
  obtain ⟨-, -, hserved⟩ := awaited_of_session Quitter.keyed_catalog Quitter.steady_catalog
    Quitter.session_served
  refine ⟨(hflight "shared").1 (by decide +kernel), ?_, ?_⟩
  · have hcall : (Quitter.torn.flights.call? 0).map (fun c => (c.key, c.cancelled)) =
        some ("early", true) := by decide +kernel
    obtain ⟨c, hc, he⟩ := Option.map_eq_some_iff.1 hcall
    obtain ⟨hkey, hcan⟩ := Prod.mk.inj he
    have hlast : Quitter.torn.Last "early" 0 := by decide +kernel
    rw [← hkey] at hlast ⊢
    exact (htorn 0 c hc hcan).2 hlast
  · have hmine : (Quitter.served.requests[2]?).map (fun r => (r.target, r.cancelled)) =
        some (.logical "late", false) := by decide +kernel
    have hother : (Quitter.aloneServed.requests[0]?).map (fun r => (r.target, r.cancelled)) =
        some (.logical "late", false) := by decide +kernel
    have hended : (Quitter.served.outcome? 2).isSome = true := by decide +kernel
    have hended' : (Quitter.aloneServed.outcome? 0).isSome = true := by decide +kernel
    obtain ⟨o, ho⟩ := Option.isSome_iff_exists.1 hended
    obtain ⟨o', ho'⟩ := Option.isSome_iff_exists.1 hended'
    obtain ⟨r, hr, hdone⟩ := outcome?_eq_some_iff.1 ho
    obtain ⟨r', hr', hdone'⟩ := outcome?_eq_some_iff.1 ho'
    rw [hr, Option.map_some, Option.some.injEq, Prod.mk.injEq] at hmine
    rw [hr', Option.map_some, Option.some.injEq, Prod.mk.injEq] at hother
    obtain ⟨r₀, p, hr₀, ht, hserve⟩ := hserved 2 (by simp)
    obtain rfl : r = r₀ := Option.some.inj (hr.symm.trans hr₀)
    obtain rfl : p = "late" := Target.logical.inj (ht.symm.trans hmine.1)
    exact ⟨o, o', ho, ho', ((hserve hmine.2).2 o hdone).2 _ _ Quitter.session_aloneServed 0 (by simp) r' hr'
      hother.1 hother.2 o' hdone'⟩

end HashedAssets.Resolver
