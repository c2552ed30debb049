import HashedAssets.Proofs.Resolver.Agreement
import HashedAssets.Proofs.SingleFlight.Counted

/-!
# While nothing becomes outdated

What holds of a resolver as long as nothing is invalidated and the host is not asked about outdated results.
Requests come and go, and may be cancelled.

* `Lasting`: nothing that is kept is marked, and nothing is to be dropped;
* `awaiting`: how many requests wait for a flight;
* `Founded`: a resolver of sources that never change, with right answers and a right count of those who
  wait; what goes on by itself, a request that is made and one that is cancelled keep it so.
-/

namespace HashedAssets.Resolver

open SingleFlight Relation

variable {x : Context} {cat : Catalog} {s u : Resolver} {n : CallId} {c : Flight}

/-! ### Results that last -/

/-- Nothing that is kept is marked, and nothing is to be dropped. -/
structure Lasting (s : Resolver) : Prop where
  noted : s.dropOnLanding = []
  unmarked : ∀ p e, s.entries.get? p = some e → e.needsCheck = false

theorem Lasting.make (x : Context) (cat : Catalog) (watch : Option Watch) :
    Lasting (make x cat watch) where
  noted := rfl
  unmarked p e h := by cases h

theorem Lasting.of_eq (h : Lasting s) (hd : u.dropOnLanding = s.dropOnLanding)
    (he : u.entries = s.entries) : Lasting u := ⟨hd ▸ h.noted, he ▸ h.unmarked⟩

theorem Lasting.takeBack (h : Lasting s) (p : String) : Lasting (s.takeBack p) where
  noted := by simp [Resolver.takeBack, h.noted]
  unmarked := h.unmarked

theorem Landing.unmarked {m : PathMap Entry} {r : Resolved} (hl : Landing s c m r) (h : Lasting s)
    {q : String} {e : Entry} (he : m.get? q = some e) : e.needsCheck = false := by
  cases hl with
  | reuse _ _ _ =>
      rw [PathMap.get?_modify] at he
      split at he
      · obtain ⟨e₀, -, rfl⟩ := Option.map_eq_some_iff.1 he
        rfl
      · exact h.unmarked q e he
  | renew _ _ _ _ =>
      rw [PathMap.get?_insert] at he
      split at he
      · cases he; rfl
      · exact h.unmarked q e he

theorem Lasting.flight (h : Lasting s) (hm : FlightMove s n c u) : Lasting u := by
  cases hm with
  | stop _ _ => exact h.of_eq rfl rfl
  | abandon _ _ _ => exact (h.takeBack c.key).of_eq rfl rfl
  | cycle _ _ _ _ _ _ => exact (h.takeBack c.key).of_eq rfl rfl
  | fail _ _ _ => exact (h.takeBack c.key).of_eq rfl rfl
  | land _ hl _ => exact ⟨h.noted, fun q e he => hl.unmarked h he⟩
  | discard _ _ hd => rw [h.noted] at hd; cases hd
  | _ => exact h.of_eq rfl rfl

theorem Lasting.advance (h : Lasting s) (hm : Advance s u) : Lasting u := by
  cases hm with
  | calm hm =>
      cases hm with
      | quiet hq => cases hq; exact h.of_eq rfl rfl
      | request _ hm => cases hm <;> exact h.of_eq rfl rfl
  | forget _ _ => exact h.of_eq rfl rfl
  | flight _ hm => exact h.flight hm

/-- Nothing is kept for a path that has a flight under way. -/
theorem Lasting.absent (h : Lasting s) (hs : Coherent s) (hc : s.flights.call? n = some c)
    (hr : c.isRunning = true) (hgo : c.cancelled = false) : s.entries.get? c.key = none := by
  cases hst : c.status with
  | finished o => exact absurd hst (not_finished_of_isRunning hr o)
  | running w => cases w with
    | launched => exact hs.tended.absent_of_launched hc hgo hst (h.unmarked c.key)
    | loading fetched => exact hs.tended.absent hc hgo (.inl ⟨fetched, hst⟩)
    | gathering a es kept children => cases kept with
      | none => exact hs.tended.absent hc hgo (.inr ⟨a, es, children, hst⟩)
      | some k =>
          obtain ⟨e, he, hmarked, -⟩ := hs.tended.exists_entry hc hgo hst
          rw [h.unmarked c.key e he] at hmarked
          cases hmarked

/-- No flight checks a kept result. -/
theorem Lasting.kept_eq_none (h : Lasting s) (hs : Coherent s) (hc : s.flights.call? n = some c)
    (hgo : c.cancelled = false) {a : Prepared} {es : List Edge} {kept : Option Resolved}
    {children : List RequestId} (hst : c.status = .running (.gathering a es kept children)) :
    kept = none := by
  cases kept with
  | none => rfl
  | some k =>
      obtain ⟨e, he, hmarked, -⟩ := hs.tended.exists_entry hc hgo hst
      rw [h.unmarked c.key e he] at hmarked
      cases hmarked

/-- A flight that lands keeps its result under its path, where nothing was kept. -/
theorem Lasting.landing (h : Lasting s) (hs : Coherent s) (hc : s.flights.call? n = some c)
    (hgo : c.cancelled = false) {m : PathMap Entry} {r : Resolved} (hl : Landing s c m r) :
    ∃ a, m = s.entries.insert c.key ⟨a, r, false⟩ := by
  cases hl with
  | reuse hst _ _ => cases h.kept_eq_none hs hc hgo hst
  | @renew a _ _ _ _ _ _ _ _ _ => exact ⟨a, rfl⟩

/-! ### Those who wait -/

/-- How many requests wait for a flight. -/
def awaiting (s : Resolver) (n : CallId) : Nat := s.requests.countP (·.caller.awaits n)

theorem Hushed.map_eq {α : Type} {rs rs' : List Request} (h : Hushed rs rs') (f : Caller Answer → α) :
    rs'.map (fun r => f r.caller) = rs.map fun r => f r.caller := by
  refine List.ext_getElem? fun i => ?_
  have hi := congrArg (Option.map fun y : Target × Caller Answer => f y.2) (h i)
  simpa only [List.getElem?_map, Option.map_map, Function.comp_def] using hi

theorem Hushed.awaiting_eq {rs : List Request} (h : Hushed s.requests rs) (n : CallId) :
    rs.countP (·.caller.awaits n) = s.awaiting n := by
  have hmap := congrArg (List.countP id) (h.map_eq fun y => y.awaits n)
  rwa [List.countP_map, List.countP_map] at hmap

theorem awaiting_append {new : List Request} (hnew : ∀ r ∈ new, r.caller = .fresh) (n : CallId) :
    (s.requests ++ new).countP (·.caller.awaits n) = s.awaiting n := by
  have hnone : new.countP (·.caller.awaits n) = 0 :=
    List.countP_eq_zero.2 fun r hr => by simp [hnew r hr]
  rw [List.countP_append, hnone, Nat.add_zero, awaiting]

theorem awaiting_setCaller {t : Table Phase Answer} {rs : List Request} (hrs : Hushed s.requests rs)
    {i : RequestId} {r : Request} (hr : s.requests[i]? = some r) (y : Caller Answer) (n : CallId) :
    ({ s with flights := t, requests := rs }.setCaller i y).awaiting n +
        (if r.caller.awaits n then 1 else 0) =
      s.awaiting n + if y.awaits n then 1 else 0 := by
  obtain ⟨r', hr', -, hcaller⟩ := hrs.symm.exists_eq hr
  rw [← hrs.awaiting_eq n, ← hcaller]
  exact countP_modify (fun r : Request => r.caller.awaits n) (fun r => { r with caller := y }) hr'

/-- Each flight has counted the requests that wait for it. -/
theorem counted_request (hs : Coherent s) (h : s.flights.Counted s.awaiting) {i : RequestId}
    {r : Request} (hr : s.requests[i]? = some r) (hm : RequestMove s i r u) :
    u.flights.Counted u.awaiting := by
  have hdone : r.caller = .fresh → ∀ o : Outcome Answer, s.flights.Counted (s.setCaller i (.done o)).awaiting :=
    fun hfresh o => h.congr fun m => by
      have hcount := awaiting_setCaller (t := s.flights) (.refl s.requests) hr (.done o) m
      simpa [hfresh] using hcount
  have hjoins : r.caller = .fresh → ∀ (t : Table Phase Answer) (m k : CallId),
      ({ s with flights := t }.setCaller i (.waiting k)).awaiting m =
        s.awaiting m + if m = k then 1 else 0 := fun hfresh t m k => by
    have hcount := awaiting_setCaller (t := t) (.refl s.requests) hr (.waiting k) m
    simpa [hfresh] using hcount
  cases hm with
  | quit hfresh _ => exact hdone hfresh _
  | refuse hfresh _ _ => exact hdone hfresh _
  | hit hfresh _ _ _ _ _ _ => exact hdone hfresh _
  | @join p k hfresh _ _ hslot =>
      obtain ⟨c, hc, -, hgo⟩ := hs.wired.slot p k hslot
      exact h.join hc hgo fun m => hjoins hfresh _ m k
  | @launch p hfresh _ _ _ _ _ => exact h.launch p .launched _ fun m => hjoins hfresh _ m _
  | @take k o rs hwaits _ hothers _ =>
      obtain ⟨c, hc, -⟩ := hs.wired.waiting i r k hr hwaits
      refine h.leave hc fun m => ?_
      have hcount := awaiting_setCaller (t := s.flights.detach k) hothers hr
        (.done (r.target.acceptOutcome (s.pathOf k) o)) m
      simpa [hwaits] using hcount

theorem counted_flight (h : s.flights.Counted s.awaiting) (hc : s.flights.call? n = some c)
    (hm : FlightMove s n c u) : u.flights.Counted u.awaiting := by
  have hrun := hm.isRunning
  obtain ⟨new, hreq, hnew⟩ := hm.requests
  refine Table.Counted.congr ?_ fun m => by rw [awaiting, hreq, awaiting_append hnew]
  cases hm with
  | hold _ _ _ _ => exact h.progress hc hrun _
  | recheck _ _ _ _ => exact h.progress hc hrun _
  | gather _ _ _ _ _ _ => exact h.progress hc hrun _
  | _ => exact h.finish n _

/-! ### Founded resolvers -/

/-- A resolver whose host is not asked about outdated results, of sources that never change. Its answers
are right, and so is the number of requests that each flight has counted. -/
structure Founded (x : Context) (cat : Catalog) (s : Resolver) : Prop where
  coherent : Coherent s
  unwatched : s.watch = none
  lasting : Lasting s
  counted : s.flights.Counted s.awaiting
  acyclic : s.graph.Acyclic
  sound : Sound x cat 0 0 s
  solved : Solved x cat s

theorem Founded.make (hc : cat.Keyed) : Founded x cat (make x cat none) where
  coherent := .make hc none
  unwatched := rfl
  lasting := .make x cat none
  counted := .empty
  acyclic := .empty
  sound := .make x cat none
  solved p e he := by cases he

/-- Somebody waits for the flight, so it has not been asked to stop. -/
theorem Founded.going_of_waiting (h : Founded x cat s) {i : RequestId} {r : Request}
    (hr : s.requests[i]? = some r)
    (hw : r.caller = .waiting n) (hc : s.flights.call? n = some c) : c.cancelled = false := by
  have hwaiters : 0 < c.waiters := by
    rw [h.counted.waiters hc, awaiting, List.countP_pos_iff]
    exact ⟨r, List.mem_of_getElem? hr, by rw [hw]; simp⟩
  rw [← Bool.not_eq_true]
  intro hcan
  exact absurd (h.counted.stopped hc hcan) (Nat.ne_of_gt hwaiters)

theorem Founded.advance (h : Founded x cat s) (hc : cat.Keyed) (hsteady : cat.Steady)
    (hm : Advance s u) : Founded x cat u where
  coherent := h.coherent.move hm.move
  unwatched := hm.watch_eq_none h.unwatched
  lasting := h.lasting.advance hm
  counted := by
    cases hm with
    | calm hm =>
        cases hm with
        | quiet hq => cases hq; exact h.counted
        | request hr hm => exact counted_request h.coherent h.counted hr hm
    | forget _ _ => exact h.counted.forget _
    | flight hc hm => exact counted_flight h.counted hc hm
  acyclic := acyclic_move h.acyclic h.coherent hm.move
  sound := h.sound.move hc hsteady h.coherent (h.solved.reuses h.coherent) hm.move
  solved := h.solved.move hc h.coherent h.sound hm.move

theorem Founded.ask (h : Founded x cat s) (hc : cat.Keyed) (hsteady : cat.Steady) (t : Target) :
    Founded x cat (s.ask t).2 where
  coherent := h.coherent.move (.inl (.ask t))
  unwatched := h.unwatched
  lasting := h.lasting.of_eq rfl rfl
  counted := h.counted.congr fun m => awaiting_append (fun r hr => by rw [List.mem_singleton.1 hr]) m
  acyclic := h.acyclic
  sound := h.sound.move hc hsteady h.coherent (h.solved.reuses h.coherent) (.inl (.ask t))
  solved := h.solved

theorem Founded.hush (h : Founded x cat s) {rs : List Request} (hrs : Hushed s.requests rs) :
    Founded x cat { s with requests := rs } where
  coherent := h.coherent.hush hrs
  unwatched := h.unwatched
  lasting := h.lasting.of_eq rfl rfl
  counted := h.counted.congr hrs.awaiting_eq
  acyclic := h.acyclic
  sound := ⟨⟨h.sound.held.context, h.sound.held.catalog, h.sound.held.edges, h.sound.held.reads,
    h.sound.held.solves, h.sound.held.tracks⟩, h.sound.scope.hush hrs, h.sound.answers.hush hrs⟩
  solved := h.solved

theorem Follows.advances (hw : s.watch = none) (hm : Follows u s) : ReflTransGen Advance s u := by
  obtain ⟨y, hy, rfl⟩ := hm
  exact advances_act (a := .step y) hy trivial hw

theorem Founded.follows (h : Founded x cat s) (hc : cat.Keyed) (hsteady : cat.Steady)
    (hm : Follows u s) : Founded x cat u := by
  have hsteps := hm.advances h.unwatched
  clear hm
  induction hsteps with
  | refl => exact h
  | tail _ hm ih => exact ih.advance hc hsteady hm

end HashedAssets.Resolver
