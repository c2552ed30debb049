import HashedAssets.Proofs.SingleFlight.Table
import HashedAssets.Resolver.Step
import Mathlib.Logic.Relation

/-!
# Moves

A piece of what goes on can do much at once: a flight that begins may load, gather and end before
anything else happens. Here each piece is taken apart into moves that do one thing each, so that a
property is kept by everything if it is kept by each move.

* `Landing`: how a flight gets its result; `FailCause`: why it has none;
* `FlightMove`: the moves of a flight, `RequestMove` those of a request;
* `Shift`: all moves that no flight makes, `Calm` those that make nothing outdated;
* `flightSteps_runFlight`, `shifts_runRequest`, `lapses_invalidate`, `lapses_clear`: each piece is made of
  moves.
-/

namespace HashedAssets

open SingleFlight Relation

/-- Whether a target can stand for a path: a logical path stands for itself only. -/
def Target.Allows (t : Target) (p : String) : Prop := ∀ q, t = .logical q → q = p

/-- The outcome of a request, from that of the flight for a path. -/
def Target.acceptOutcome (t : Target) (p : String) : Outcome Answer → Outcome Answer
  | .cancelled => .cancelled
  | .result a => .result (t.accept p a)

theorem Catalog.contains_of_get {c : Catalog} {p : String} {d : Definition} (h : c.get p = .ok d) :
    c.contains p = true := by
  unfold Catalog.get at h
  split at h
  · next hd => simp [Catalog.contains, PathMap.contains, hd]
  · cases h

namespace Resolver

/-! ### Flights -/

/-- How a flight gets its result, with what is kept then: it uses a kept result again, or resolves its
asset anew. -/
inductive Landing (s : Resolver) (c : Flight) : PathMap Entry → Resolved → Prop
  | reuse {a : Prepared} {es : List Edge} {k : Resolved} {children : List RequestId}
      {m : PathMap Resolved} (status : c.status = .running (.gathering a es (some k) children))
      (answers : s.collect children = .result (.ok m)) (current : isUpToDate k m = true) :
      Landing s c (s.entries.modify c.key fun e => { e with needsCheck := false }) k
  | renew {a : Prepared} {es : List Edge} {kept : Option Resolved} {children : List RequestId}
      {m : PathMap Resolved} {r : Resolved}
      (status : c.status = .running (.gathering a es kept children))
      (answers : s.collect children = .result (.ok m))
      (outdated : ∀ k, kept = some k → isUpToDate k m = false)
      (result : s.context.resolve s.catalog a es m = .ok r) :
      Landing s c (s.entries.insert c.key ⟨a, r, false⟩) r

/-- Why a flight has no result. -/
inductive FailCause (s : Resolver) (c : Flight) : Failure → Prop
  | unregistered {f : Failure} (running : c.status = .running .launched ∨
      ∃ fetched, c.status = .running (.loading fetched)) (get : s.catalog.get c.key = .error f) :
      FailCause s c f
  | unread {fetched : Catalog.Fetch} {g : Fault} (status : c.status = .running (.loading fetched))
      (result : fetched.result = .error g) : FailCause s c (.fault g)
  | unprepared {fetched : Catalog.Fetch} {raw : Bytes} {d : Definition} {f : Failure}
      (status : c.status = .running (.loading fetched)) (result : fetched.result = .ok raw)
      (get : s.catalog.get c.key = .ok d) (prepare : s.context.prepare s.catalog d raw = .error f) :
      FailCause s c f
  | target {a : Prepared} {es : List Edge} {kept : Option Resolved} {children : List RequestId}
      {f : Failure} (status : c.status = .running (.gathering a es kept children))
      (complete : ∀ i ∈ children, (s.outcome? i).isSome = true)
      (answers : s.collect children = .result (.error f)) : FailCause s c f
  | unresolved {a : Prepared} {es : List Edge} {kept : Option Resolved} {children : List RequestId}
      {m : PathMap Resolved} {f : Failure}
      (status : c.status = .running (.gathering a es kept children))
      (answers : s.collect children = .result (.ok m))
      (result : s.context.resolve s.catalog a es m = .error f) : FailCause s c f

/-- The state in which a flight waits for requests for the targets of its edges. -/
def await (s : Resolver) (n : CallId) (a : Prepared) (es : List Edge) (kept : Option Resolved) :
    Resolver :=
  { s with
    requests := s.requests ++
      (ascending (Edge.targets es)).map fun t => ⟨.logical t, .fresh, false⟩
    flights := s.flights.progress n (.gathering a es kept
      ((List.range (ascending (Edge.targets es)).length).map (· + s.requests.length))) }

/-- The state in which a flight has ended. -/
def ended (s : Resolver) (n : CallId) (o : Outcome Answer) : Resolver :=
  { s with flights := s.flights.finish n o }

/-- One move of a flight. -/
inductive FlightMove (s : Resolver) (n : CallId) (c : Flight) : Resolver → Prop
  | stop (status : c.status = .running .launched) (cancelled : c.cancelled = true) :
      FlightMove s n c (s.ended n .cancelled)
  | abandon {w : Phase} (status : c.status = .running w) (begun : w ≠ .launched)
      (cause : c.cancelled = true ∨ ∃ a es kept children, w = .gathering a es kept children ∧
        (∀ i ∈ children, (s.outcome? i).isSome = true) ∧ s.collect children = .cancelled) :
      FlightMove s n c ((s.takeBack c.key).ended n .cancelled)
  | hold {d : Definition} (status : c.status = .running .launched) (going : c.cancelled = false)
      (unmarked : ∀ e, s.entries.get? c.key = some e → e.needsCheck = false)
      (get : s.catalog.get c.key = .ok d) :
      FlightMove s n c { s with
        catalog := (s.catalog.fetch d).2
        flights := s.flights.progress n (.loading (s.catalog.fetch d).1) }
  | recheck {e : Entry} (status : c.status = .running .launched) (going : c.cancelled = false)
      (entry : s.entries.get? c.key = some e) (marked : e.needsCheck = true) :
      FlightMove s n c (s.await n e.asset e.resolved.edges (some e.resolved))
  | gather {fetched : Catalog.Fetch} {raw : Bytes} {d : Definition} {a : Prepared} {es : List Edge}
      (status : c.status = .running (.loading fetched)) (going : c.cancelled = false)
      (result : fetched.result = .ok raw) (get : s.catalog.get c.key = .ok d)
      (prepare : s.context.prepare s.catalog d raw = .ok (a, es))
      (acyclic : (s.graph.setEdges c.key es).cycleThrough? c.key = none) :
      FlightMove s n c ({ s with graph := s.graph.setEdges c.key es }.await n a es none)
  | cycle {fetched : Catalog.Fetch} {raw : Bytes} {d : Definition} {a : Prepared} {es : List Edge}
      {paths : List String} (status : c.status = .running (.loading fetched))
      (going : c.cancelled = false) (result : fetched.result = .ok raw)
      (get : s.catalog.get c.key = .ok d)
      (prepare : s.context.prepare s.catalog d raw = .ok (a, es))
      (cyclic : (s.graph.setEdges c.key es).cycleThrough? c.key = some paths) :
      FlightMove s n c (({ s with graph := s.graph.setEdges c.key es }.takeBack c.key).ended n
        (.result (.error (.fault (.cycle paths)))))
  | fail {f : Failure} (going : c.cancelled = false) (cause : FailCause s c f)
      (ofAsset : f.isOfAsset = true) :
      FlightMove s n c ((s.takeBack c.key).ended n (.result (.error f)))
  | crash {f : Failure} (going : c.cancelled = false) (cause : FailCause s c f)
      (notOfAsset : f.isOfAsset = false) : FlightMove s n c (s.ended n (.result (.error f)))
  | land {m : PathMap Entry} {r : Resolved} (going : c.cancelled = false) (landing : Landing s c m r)
      (wanted : c.key ∉ s.dropOnLanding) :
      FlightMove s n c ({ s with entries := m }.ended n (.result (.ok r)))
  | discard {m : PathMap Entry} {r : Resolved} (going : c.cancelled = false)
      (landing : Landing s c m r) (unwanted : c.key ∈ s.dropOnLanding) :
      FlightMove s n c (({ s with entries := m.erase c.key }.takeBack c.key).ended n
        (.result (.ok r)))

/-! ### All else -/

/-- The same requests, of which more may be cancelled. -/
def Hushed (rs rs' : List Request) : Prop :=
  ∀ i : Nat, (rs'[i]?).map (fun r => (r.target, r.caller)) = (rs[i]?).map fun r => (r.target, r.caller)

/-- A change of nothing that is kept or under way. A host that is not asked about outdated results is
never asked. -/
inductive Quiet (s : Resolver) : Resolver → Prop
  | intro (openGates : List String) (watch : Option Watch) (byPublic : PathMap String)
      (stats : Stats) (events : List Event) (checked : List String)
      (unwatched : s.watch = none → watch = none) :
      Quiet s { s with openGates, watch, byPublic, stats, events, checked }

/-- One move that makes kept results outdated. -/
inductive Lapse (s : Resolver) : Resolver → Prop
  | quiet {t : Resolver} (quiet : Quiet s t) : Lapse s t
  | drop {p : String} (idle : s.flights.slots.get? p = none) :
      Lapse s { s with entries := s.entries.erase p, graph := s.graph.setEdges p [] }
  | defer {p : String} (busy : s.flights.slots.get? p ≠ none) :
      Lapse s { s with dropOnLanding := insertAscending p s.dropOnLanding }
  | mark (p : String) : Lapse s (s.mark p)

/-- One move of a request. -/
inductive RequestMove (s : Resolver) (i : RequestId) (r : Request) : Resolver → Prop
  | quit (caller : r.caller = .fresh) (cancelled : r.cancelled = true) :
      RequestMove s i r (s.setCaller i (.done .cancelled))
  | refuse {f : Failure} (caller : r.caller = .fresh) (going : r.cancelled = false)
      (cause : ∀ p, r.target = .logical p → s.catalog.get p = .error f) :
      RequestMove s i r (s.setCaller i (.done (.result (.error f))))
  | hit {p : String} {e : Entry} (caller : r.caller = .fresh) (going : r.cancelled = false)
      (target : r.target.Allows p) (registered : s.catalog.contains p = true)
      (idle : s.flights.slots.get? p = none) (entry : s.entries.get? p = some e)
      (unmarked : e.needsCheck = false) :
      RequestMove s i r (s.setCaller i (.done (.result (r.target.accept p (.ok e.resolved)))))
  | join {p : String} {n : CallId} (caller : r.caller = .fresh) (going : r.cancelled = false)
      (target : r.target.Allows p) (slot : s.flights.slots.get? p = some n) :
      RequestMove s i r ({ s with
        flights := s.flights.modify n fun c => { c with waiters := c.waiters + 1 } }.setCaller i
          (.waiting n))
  | launch {p : String} (caller : r.caller = .fresh) (going : r.cancelled = false)
      (target : r.target.Allows p) (registered : s.catalog.contains p = true)
      (idle : s.flights.slots.get? p = none)
      (marked : ∀ e, s.entries.get? p = some e → e.needsCheck = true) :
      RequestMove s i r ({ s with
        flights := ⟨s.flights.slots.insert p s.flights.calls.length,
          s.flights.calls ++ [(⟨p, .running .launched, 1, false⟩ : Flight)]⟩ }.setCaller i
          (.waiting s.flights.calls.length))
  | take {n : CallId} {o : Outcome Answer} {rs : List Request} (caller : r.caller = .waiting n)
      (answer : s.flights.answer? r.cancelled n = some o)
      (others : Hushed s.requests rs)
      (silenced : rs ≠ s.requests → ∃ c, (s.flights.detach n).call? n = some c ∧ c.cancelled = true) :
      RequestMove s i r ({ s with flights := s.flights.detach n, requests := rs }.setCaller i
        (.done (r.target.acceptOutcome (s.pathOf n) o)))

/-- One move of a request, or a report on it: nothing becomes outdated. -/
inductive Calm (s : Resolver) : Resolver → Prop
  | quiet {t : Resolver} (quiet : Quiet s t) : Calm s t
  | request {i : RequestId} {r : Request} {t : Resolver} (request : s.requests[i]? = some r)
      (move : RequestMove s i r t) : Calm s t

/-- One move that no flight makes. -/
inductive Shift (s : Resolver) : Resolver → Prop
  | lapse {t : Resolver} (move : Lapse s t) : Shift s t
  | ask (target : Target) : Shift s (s.ask target).2
  | forget {n : CallId} {c : Flight} (call : s.flights.call? n = some c)
      (finished : c.isRunning = false) : Shift s { s with flights := s.flights.forget n }
  | request {i : RequestId} {r : Request} {t : Resolver} (request : s.requests[i]? = some r)
      (move : RequestMove s i r t) : Shift s t

/-- One move of the flight of a number, or a report on it. -/
def FlightStep (n : CallId) (s t : Resolver) : Prop :=
  Quiet s t ∨ ∃ c, s.flights.call? n = some c ∧ FlightMove s n c t

/-- One move of the request of a number, or a report on it. -/
def RequestStep (i : RequestId) (s t : Resolver) : Prop :=
  Quiet s t ∨ ∃ r, s.requests[i]? = some r ∧ RequestMove s i r t

/-! ### Flights, piece by piece -/

variable {s t : Resolver} {n : CallId} {c : Flight}

theorem FlightStep.of_move (hc : s.flights.call? n = some c) (h : FlightMove s n c t) :
    ReflTransGen (FlightStep n) s t := .single (.inr ⟨c, hc, h⟩)

theorem flightSteps_fail {f : Failure} (hc : s.flights.call? n = some c)
    (hgoing : c.cancelled = false) (hf : FailCause s c f) :
    ReflTransGen (FlightStep n) s (s.fail n c.key f) := by
  unfold fail
  dsimp only
  split
  · next h =>
      exact (FlightStep.of_move hc (.fail hgoing hf h)).tail (.inl (.intro _ _ _ _ _ _ id))
  · next h =>
      exact FlightStep.of_move hc (.crash hgoing hf (by simpa using h))

theorem flightSteps_succeed {m : PathMap Entry} {r : Resolved} (hc : s.flights.call? n = some c)
    (hgoing : c.cancelled = false) (hr : Landing s c m r) (byPublic : PathMap String)
    (stats : Stats) :
    ReflTransGen (FlightStep n) s
      ({ s with entries := m, byPublic, stats }.succeed n c.key r) := by
  unfold succeed
  dsimp only
  split
  · next h =>
      exact (FlightStep.of_move hc (.discard hgoing hr (by simpa using h))).tail
        (.inl (.intro _ _ _ _ _ _ id))
  · next h =>
      exact (FlightStep.of_move hc (.land hgoing hr (by simpa using h))).tail
        (.inl (.intro _ _ _ _ _ _ id))

theorem flightSteps_conclude {a : Prepared} {es : List Edge} {kept : Option Resolved}
    {children : List RequestId} {m : PathMap Resolved} (hc : s.flights.call? n = some c)
    (hgoing : c.cancelled = false)
    (hstatus : c.status = .running (.gathering a es kept children))
    (hm : s.collect children = .result (.ok m)) :
    ReflTransGen (FlightStep n) s (s.conclude n c.key a es kept m) := by
  unfold conclude
  split
  · next k hk =>
      obtain ⟨rfl, hcur⟩ : kept = some k ∧ isUpToDate k m = true := by simpa using hk
      exact flightSteps_succeed hc hgoing (.reuse hstatus hm hcur) s.byPublic s.stats
  · next hk =>
      have hout : ∀ k, kept = some k → isUpToDate k m = false := fun k h => by
        subst h
        simpa using hk
      split
      · next f hr => exact flightSteps_fail hc hgoing (.unresolved hstatus hm hr)
      · next r hr =>
          exact flightSteps_succeed hc hgoing (.renew hstatus hm hout hr) _ _

/-! How far a flight has come does not matter for what it does once its answers are there. -/

/-- The state in which a flight has come as far as said. -/
def progressed (s : Resolver) (n : CallId) (w : Phase) : Resolver :=
  { s with flights := s.flights.progress n w }

theorem finish_progressed (s : Resolver) (n : CallId) (w : Phase) (o : Outcome Answer) :
    (s.progressed n w).finish n o = s.finish n o := by
  simp only [finish, progressed, Table.finish_progress]

theorem fail_progressed (s : Resolver) (n : CallId) (w : Phase) (p : String) (f : Failure) :
    (s.progressed n w).fail n p f = s.fail n p f := by
  unfold fail
  split
  · exact finish_progressed ((s.takeBack p).report p .failed f.message) n w _
  · exact finish_progressed s n w _

theorem succeed_progressed (s : Resolver) (n : CallId) (w : Phase) (p : String) (r : Resolved) :
    (s.progressed n w).succeed n p r = s.succeed n p r := by
  unfold succeed
  by_cases h : s.dropOnLanding.contains p = true
  · rw [if_pos h, if_pos (show (s.progressed n w).dropOnLanding.contains p = true from h)]
    exact finish_progressed ((({ s with dropOnLanding := _ } : Resolver).drop p).report p _ _) n w _
  · rw [if_neg h, if_neg (show ¬(s.progressed n w).dropOnLanding.contains p = true from h)]
    exact finish_progressed (s.report p _ _) n w _

theorem conclude_progressed (s : Resolver) (n : CallId) (w : Phase) (p : String) (a : Prepared)
    (es : List Edge) (kept : Option Resolved) (m : PathMap Resolved) :
    (s.progressed n w).conclude n p a es kept m = s.conclude n p a es kept m := by
  unfold conclude
  split
  · next r _ =>
      exact succeed_progressed { s with entries := _ } n w p r
  · have hr : (s.progressed n w).context.resolve (s.progressed n w).catalog a es m
        = s.context.resolve s.catalog a es m := rfl
    rw [hr]
    cases s.context.resolve s.catalog a es m with
    | error f => exact fail_progressed s n w p f
    | ok r => exact succeed_progressed (({ s with stats := _ } : Resolver).keep p _) n w p r

theorem gather_progressed (s : Resolver) (n : CallId) (w : Phase) (p : String) (a : Prepared)
    (es : List Edge) (kept : Option Resolved) :
    (s.progressed n w).gather n p a es kept = s.gather n p a es kept := by
  unfold gather
  split
  · exact conclude_progressed s n w p a es kept ∅
  · simp only [askAll, progressed, Table.progress_progress]

theorem loaded_progressed (s : Resolver) (n : CallId) (w : Phase) (p : String)
    (result : Except Fault Bytes) :
    (s.progressed n w).loaded n p result = s.loaded n p result := by
  unfold loaded
  cases result with
  | error f => exact fail_progressed s n w p _
  | ok raw =>
      dsimp only
      have hget : (s.progressed n w).catalog.get p = s.catalog.get p := rfl
      rw [hget]
      cases s.catalog.get p with
      | error f => exact fail_progressed s n w p f
      | ok d =>
          dsimp only
          have hprep : (s.progressed n w).context.prepare (s.progressed n w).catalog d raw
              = s.context.prepare s.catalog d raw := rfl
          rw [hprep]
          cases s.context.prepare s.catalog d raw with
          | error f => exact fail_progressed s n w p f
          | ok y =>
              dsimp only
              have hcyc : ((s.progressed n w).graph.setEdges p y.2).cycleThrough? p
                  = (s.graph.setEdges p y.2).cycleThrough? p := rfl
              rw [hcyc]
              cases (s.graph.setEdges p y.2).cycleThrough? p with
              | some paths => exact fail_progressed { s with graph := _ } n w p _
              | none => exact gather_progressed { s with graph := _ } n w p y.1 y.2 none

theorem await_eq_progressed {a : Prepared} {es : List Edge} {kept : Option Resolved}
    (h : ascending (Edge.targets es) = []) :
    s.await n a es kept = s.progressed n (.gathering a es kept []) := by
  simp [await, progressed, h]

theorem gather_eq_await {p : String} {a : Prepared} {es : List Edge} {kept : Option Resolved}
    (h : ascending (Edge.targets es) ≠ []) : s.gather n p a es kept = s.await n a es kept := by
  unfold gather
  split
  · next h' => exact absurd h' h
  · simp [askAll, await, List.map_map, Function.comp_def]

/-- What a flight does when it gathers: it waits, and goes on at once if there is nothing to wait
for. -/
theorem flightSteps_gather {a : Prepared} {es : List Edge} {kept : Option Resolved}
    (hc : s.flights.call? n = some c) (hgoing : c.cancelled = false) :
    ReflTransGen (FlightStep n) (s.await n a es kept) (s.gather n c.key a es kept) := by
  by_cases h : ascending (Edge.targets es) = []
  · rw [gather, h, await_eq_progressed h]
    dsimp only
    rw [← conclude_progressed s n (.gathering a es kept [])]
    refine flightSteps_conclude (c := { c with status := .running (.gathering a es kept []) })
      ?_ hgoing rfl rfl
    simp [progressed, hc]
  · rw [gather_eq_await h]

theorem flightSteps_loaded {fetched : Catalog.Fetch} (hc : s.flights.call? n = some c)
    (hgoing : c.cancelled = false) (hstatus : c.status = .running (.loading fetched)) :
    ReflTransGen (FlightStep n) s (s.loaded n c.key fetched.result) := by
  unfold loaded
  cases hres : fetched.result with
  | error g => exact flightSteps_fail hc hgoing (.unread hstatus hres)
  | ok raw =>
      dsimp only
      cases hget : s.catalog.get c.key with
      | error f => exact flightSteps_fail hc hgoing (.unregistered (.inr ⟨fetched, hstatus⟩) hget)
      | ok d =>
          dsimp only
          cases hprep : s.context.prepare s.catalog d raw with
          | error f => exact flightSteps_fail hc hgoing (.unprepared hstatus hres hget hprep)
          | ok y =>
              obtain ⟨a, es⟩ := y
              dsimp only
              cases hcyc : (s.graph.setEdges c.key es).cycleThrough? c.key with
              | some paths =>
                  exact (FlightStep.of_move hc (.cycle hstatus hgoing hres hget hprep hcyc)).tail
                    (.inl (.intro _ _ _ _ _ _ id))
              | none =>
                  exact (FlightStep.of_move hc
                    (.gather hstatus hgoing hres hget hprep hcyc)).trans
                      (flightSteps_gather (s := { s with graph := s.graph.setEdges c.key es })
                        hc hgoing)

theorem flightSteps_load (hc : s.flights.call? n = some c) (hgoing : c.cancelled = false)
    (hstatus : c.status = .running .launched)
    (hentry : ∀ e, s.entries.get? c.key = some e → e.needsCheck = false) :
    ReflTransGen (FlightStep n) s (s.load n c.key) := by
  unfold load
  cases hget : s.catalog.get c.key with
  | error f => exact flightSteps_fail hc hgoing (.unregistered (.inl hstatus) hget)
  | ok d =>
      have hhold := FlightStep.of_move hc (.hold hstatus hgoing hentry hget)
      dsimp only
      split
      · refine hhold.trans ?_
        rw [← loaded_progressed { s with catalog := (s.catalog.fetch d).2 } n
          (.loading (s.catalog.fetch d).1)]
        refine flightSteps_loaded
          (c := { c with status := .running (.loading (s.catalog.fetch d).1) }) ?_ hgoing rfl
        simp [hc]
      · exact hhold

theorem flightSteps_start (hc : s.flights.call? n = some c) (hgoing : c.cancelled = false)
    (hstatus : c.status = .running .launched) :
    ReflTransGen (FlightStep n) s (s.start n c.key) := by
  have hreport : FlightStep n s (s.report c.key .pending "") := .inl (.intro _ _ _ _ _ _ id)
  refine .head hreport ?_
  unfold start
  dsimp only
  split
  · next e he =>
      split
      · next hm =>
          exact (FlightStep.of_move (s := s.report c.key .pending "") hc
            (.recheck hstatus hgoing he hm)).trans (flightSteps_gather hc hgoing)
      · next hm =>
          refine flightSteps_load hc hgoing hstatus fun e' he' => ?_
          rw [he] at he'
          cases he'
          simpa using hm
  · next he =>
      refine flightSteps_load hc hgoing hstatus fun e' he' => ?_
      rw [he] at he'
      cases he'

/-- What a flight does is made of moves of its own. -/
theorem flightSteps_runFlight (s : Resolver) (n : CallId) :
    ReflTransGen (FlightStep n) s (s.runFlight n) := by
  unfold runFlight
  split
  · exact .refl
  · next c hc =>
      split
      · exact .refl
      · next hstatus =>
          split
          · next h => exact FlightStep.of_move hc (.stop hstatus h)
          · next h => exact flightSteps_start hc (by simpa using h) hstatus
      · next fetched hstatus =>
          split
          · next h => exact FlightStep.of_move hc (.abandon hstatus (by simp) (.inl h))
          · next h =>
              split
              · exact flightSteps_loaded hc (by simpa using h) hstatus
              · exact .refl
      · next a es kept children hstatus =>
          split
          · exact .refl
          · next hdone =>
              have hcomplete : ∀ i ∈ children, (s.outcome? i).isSome = true := by
                simpa [Option.isSome_iff_ne_none] using hdone
              split
              · next h => exact FlightStep.of_move hc (.abandon hstatus (by simp) (.inl h))
              · next h =>
                  have hgoing : c.cancelled = false := by simpa using h
                  split
                  · next hcol =>
                      exact FlightStep.of_move hc (.abandon hstatus (by simp)
                        (.inr ⟨a, es, kept, children, rfl, hcomplete, hcol⟩))
                  · next f hcol => exact flightSteps_fail hc hgoing (.target hstatus hcomplete hcol)
                  · next m hcol => exact flightSteps_conclude hc hgoing hstatus hcol

/-! ### What makes kept results outdated -/

theorem Lapse.frame (h : Lapse s t) : t.context = s.context ∧ t.catalog = s.catalog ∧
    t.flights = s.flights ∧ t.requests = s.requests := by
  cases h with
  | quiet h => cases h; exact ⟨rfl, rfl, rfl, rfl⟩
  | drop => exact ⟨rfl, rfl, rfl, rfl⟩
  | defer => exact ⟨rfl, rfl, rfl, rfl⟩
  | mark => exact ⟨rfl, rfl, rfl, rfl⟩

/-- Outdated results do not matter to what is under way. -/
theorem frame_of_lapses (h : ReflTransGen Lapse s t) : t.context = s.context ∧
    t.catalog = s.catalog ∧ t.flights = s.flights ∧ t.requests = s.requests := by
  induction h with
  | refl => exact ⟨rfl, rfl, rfl, rfl⟩
  | tail _ h ih =>
      obtain ⟨h1, h2, h3, h4⟩ := h.frame
      exact ⟨h1.trans ih.1, h2.trans ih.2.1, h3.trans ih.2.2.1, h4.trans ih.2.2.2⟩

theorem lapses_quiet (h : Quiet s t) : ReflTransGen Lapse s t := .single (.quiet h)

theorem lapses_dropOrDefer (s : Resolver) (p : String) :
    ReflTransGen Lapse s (s.dropOrDefer p) := by
  unfold dropOrDefer
  split
  · next h =>
      refine .single (.defer fun hnone => ?_)
      rw [Table.inFlight_eq_false_iff.2 hnone] at h
      cases h
  · next h =>
      have hidle : s.flights.slots.get? p = none :=
        Table.inFlight_eq_false_iff.1 (by simpa using h)
      exact .tail (.single (.drop hidle)) (.quiet (.intro _ _ _ _ _ _ id))

/-- What each step of a loop leaves as it is, the loop leaves as it is. -/
theorem eq_of_foldl {α β : Type} {g : Resolver → β} {f : Resolver → α → Resolver}
    (hf : ∀ s a, g (f s a) = g s) (s : Resolver) (l : List α) : g (l.foldl f s) = g s := by
  induction l generalizing s with
  | nil => rfl
  | cons a rest ih => exact (ih (f s a)).trans (hf s a)

theorem lapses_foldl {f : Resolver → String → Resolver}
    (hf : ∀ s p, ReflTransGen Lapse s (f s p)) (s : Resolver) (ps : List String) :
    ReflTransGen Lapse s (ps.foldl f s) := by
  induction ps generalizing s with
  | nil => exact .refl
  | cons p rest ih => exact (hf s p).trans (ih (f s p))

theorem lapses_invalidate (s : Resolver) (p : String) :
    ReflTransGen Lapse s (s.invalidate p).2 := by
  unfold invalidate
  split
  · exact .refl
  · exact .head (.quiet (.intro _ _ _ _ _ _ id))
      ((lapses_foldl lapses_dropOrDefer _ _).trans
        (lapses_foldl (fun s p => .single (.mark p)) _ _))

theorem lapses_clear (s : Resolver) : ReflTransGen Lapse s s.clear :=
  (lapses_foldl lapses_dropOrDefer _ _).tail (.quiet (.intro _ _ _ _ _ _ id))

theorem lapses_checkPath (s : Resolver) (p : String) : ReflTransGen Lapse s (s.checkPath p) := by
  unfold checkPath
  split
  · next w e hw _ =>
      have hwatched : ∀ v : Option Watch, s.watch = none → v = none := fun v h => by
        rw [hw] at h
        cases h
      split
      · exact .refl
      · dsimp only
        split
        · exact .head (.quiet (.intro _ _ _ _ _ _ (hwatched _))) (lapses_invalidate _ p)
        · exact .single (.quiet (.intro _ _ _ _ _ _ (hwatched _)))
  · exact .refl

theorem lapses_dropStale (s : Resolver) (p : String) : ReflTransGen Lapse s (s.dropStale p) :=
  lapses_foldl lapses_checkPath _ _

theorem kept?_of_watch_eq_none (hw : s.watch = none) (p : String) : (s.kept? p).2 = s := by
  unfold kept?
  split
  · rfl
  · rw [hw]
    dsimp only [Option.isSome_none, Bool.false_eq_true, if_false]
    split <;> rfl

/-- A kept result that can be used is not marked, and no flight for its path is under way. If there is
none then there is a flight, or nothing kept that is not marked. -/
theorem kept?_cases (s : Resolver) (p : String) :
    ReflTransGen Lapse s (s.kept? p).2 ∧
    ((∃ e, (s.kept? p).1 = some e.resolved ∧ (s.kept? p).2.entries.get? p = some e ∧
        e.needsCheck = false ∧ s.flights.slots.get? p = none) ∨
      (s.kept? p).1 = none ∧ (s.flights.slots.get? p ≠ none ∨
        ∀ e, (s.kept? p).2.entries.get? p = some e → e.needsCheck = true)) := by
  unfold kept?
  split
  · next h =>
      refine ⟨.refl, .inr ⟨rfl, ?_⟩⟩
      rcases Bool.or_eq_true_iff.1 h with h | h
      · refine .inr fun e he => ?_
        simp [PathMap.contains, he] at h
      · refine .inl fun hnone => ?_
        rw [Table.inFlight_eq_false_iff.2 hnone] at h
        cases h
  · next h =>
      have hidle : s.flights.slots.get? p = none :=
        Table.inFlight_eq_false_iff.1 (by
          rw [← Bool.not_eq_true]
          exact fun hf => h (by simp [hf]))
      dsimp only
      have hl : ReflTransGen Lapse s (if s.watch.isSome then s.dropStale p else s) := by
        split
        · exact lapses_dropStale s p
        · exact .refl
      generalize (if s.watch.isSome then s.dropStale p else s) = t at hl ⊢
      split
      · next e he =>
          refine ⟨hl, ?_⟩
          cases hm : e.needsCheck with
          | true =>
              refine .inr ⟨rfl, .inr fun e' he' => ?_⟩
              rw [he] at he'; cases he'
              exact hm
          | false => exact .inl ⟨e, rfl, he, hm, hidle⟩
      · next he =>
          refine ⟨hl, .inr ⟨rfl, .inr fun e he' => ?_⟩⟩
          rw [he] at he'; cases he'

/-! ### Requests, piece by piece -/

theorem Hushed.refl (rs : List Request) : Hushed rs rs := fun _ => rfl

theorem Hushed.trans {rs rs' rs'' : List Request} (h : Hushed rs rs') (h' : Hushed rs' rs'') :
    Hushed rs rs'' := fun i => (h' i).trans (h i)

/-- Cancelling a request does nothing to it until it goes on. -/
theorem cancel_eq (s : Resolver) (i : RequestId) :
    ∃ rs, (s.cancel i).2 = { s with requests := rs } ∧ Hushed s.requests rs := by
  unfold cancel
  split
  · exact ⟨s.requests, rfl, .refl _⟩
  · split
    · exact ⟨s.requests, rfl, .refl _⟩
    · refine ⟨_, rfl, fun j => ?_⟩
      rw [List.getElem?_modify, Option.map_eq_map, Option.map_map]
      congr 1
      funext r
      dsimp only [Function.comp]
      split <;> rfl

theorem foldl_cancel_eq (s : Resolver) (is : List RequestId) :
    ∃ rs, is.foldl (fun s i => (s.cancel i).2) s = { s with requests := rs } ∧
      Hushed s.requests rs := by
  induction is generalizing s with
  | nil => exact ⟨s.requests, rfl, .refl _⟩
  | cons i rest ih =>
      obtain ⟨rs, hrs, hh⟩ := cancel_eq s i
      obtain ⟨rs', hrs', hh'⟩ := ih (s.cancel i).2
      refine ⟨rs', ?_, hh.trans ?_⟩
      · rw [List.foldl_cons, hrs', hrs]
      · rw [hrs] at hh'; exact hh'

theorem leave_eq (s : Resolver) (n : CallId) :
    ∃ rs, s.leave n = { s with flights := s.flights.detach n, requests := rs } ∧
      Hushed s.requests rs ∧
      (rs ≠ s.requests → ∃ c, (s.flights.detach n).call? n = some c ∧ c.cancelled = true) := by
  unfold leave
  dsimp only
  split
  · next c hc =>
      split
      · next h =>
          obtain ⟨rs, hrs, hh⟩ :=
            foldl_cancel_eq { s with flights := s.flights.detach n } (childrenOf _ n)
          exact ⟨rs, hrs, hh, fun _ => ⟨c, hc, h⟩⟩
      · exact ⟨s.requests, rfl, .refl _, fun h => absurd rfl h⟩
  · exact ⟨s.requests, rfl, .refl _, fun h => absurd rfl h⟩

@[simp] theorem getElem?_setCaller (s : Resolver) (i : RequestId) (c : Caller Answer) (j : Nat) :
    (s.setCaller i c).requests[j]? =
      if j = i then (s.requests[j]?).map fun r => { r with caller := c } else s.requests[j]? := by
  simp only [setCaller, List.getElem?_modify]
  by_cases h : j = i
  · subst h; simp
  · simp [h, Ne.symm h]

variable {i : RequestId} {r : Request}

theorem RequestStep.of_move {t : Resolver} (hr : s.requests[i]? = some r) (h : RequestMove s i r t) :
    ReflTransGen (RequestStep i) s t := .single (.inr ⟨r, hr, h⟩)

theorem calms_of_requestSteps {t : Resolver} (h : ReflTransGen (RequestStep i) s t) :
    ReflTransGen Calm s t :=
  ReflTransGen.mono (fun _ _ hm => hm.elim .quiet fun ⟨_, hr, hm⟩ => .request hr hm) _ _ h

theorem requestSteps_takeAnswer (hr : s.requests[i]? = some r) :
    ReflTransGen (RequestStep i) s (s.takeAnswer i) := by
  unfold takeAnswer
  rw [hr]
  dsimp only
  split
  · next n hn =>
      obtain ⟨rs, hrs, hothers, hsilenced⟩ := leave_eq s n
      split
      · exact .refl
      · next ha =>
          rw [hrs]
          exact RequestStep.of_move hr (.take hn ha hothers hsilenced)
      · next a ha =>
          rw [hrs]
          exact RequestStep.of_move hr (.take hn ha hothers hsilenced)
  · exact .refl

/-- A request for an asset of which nothing kept can be used comes to wait for the flight for the path.
Then it takes its answer, if the flight has ended. -/
theorem exists_requestSteps_join {p : String} {d : Definition} (hr : s.requests[i]? = some r)
    (hfresh : r.caller = .fresh) (hgoing : r.cancelled = false) (htarget : r.target.Allows p)
    (hget : s.catalog.get p = .ok d) (hnone : (s.kept? p).1 = none) :
    ∃ t, ReflTransGen (RequestStep i) (s.kept? p).2 t ∧
      t.requests[i]? = some { r with caller := .waiting (s.flights.attach p .launched).1 } ∧
      s.request i r.target p = t.takeAnswer i := by
  have hreg := Catalog.contains_of_get hget
  obtain ⟨hl, hcases⟩ := kept?_cases s p
  obtain ⟨-, hcat, hfl, hreq⟩ := frame_of_lapses hl
  unfold request
  rw [hget]
  dsimp only
  revert hcases hcat hfl hreq hnone
  clear hl
  generalize s.kept? p = y
  obtain ⟨k, t⟩ := y
  rintro hnone hcases hcat hfl hreq
  dsimp only at *
  subst hnone
  have hmisses : Quiet t { t with stats := { t.stats with misses := t.stats.misses + 1 } } :=
    .intro t.openGates t.watch t.byPublic _ t.events t.checked id
  dsimp only
  rw [← hfl]
  cases hslot : t.flights.slots.get? p with
  | some n =>
      rw [Table.attach_of_some hslot]
      refine ⟨_, .head (.inl hmisses) (.single (.inr ⟨r, hreq ▸ hr, .join hfresh hgoing htarget hslot⟩)),
        ?_, rfl⟩
      rw [getElem?_setCaller, if_pos rfl, hreq, hr]
      rfl
  | none =>
      rw [Table.attach_of_none hslot]
      have hmarked : ∀ e, t.entries.get? p = some e → e.needsCheck = true := by
        rcases hcases with ⟨e, he, -⟩ | ⟨-, hbusy | hmarked⟩
        · cases he
        · exact absurd (hfl ▸ hslot) hbusy
        · exact hmarked
      refine ⟨_, .head (.inl hmisses) (.single (.inr ⟨r, hreq ▸ hr,
        .launch hfresh hgoing htarget (hcat ▸ hreg) hslot hmarked⟩)), ?_, rfl⟩
      rw [getElem?_setCaller, if_pos rfl, hreq, hr]
      rfl

/-- A request for an asset that is not registered fails; any other goes on with moves of its own once the
host has been asked about outdated results. -/
theorem requestSteps_request {p : String} (hr : s.requests[i]? = some r) (hfresh : r.caller = .fresh)
    (hgoing : r.cancelled = false) (htarget : r.target.Allows p) :
    ReflTransGen (RequestStep i) s (s.request i r.target p) ∧ (∃ f, s.catalog.get p = .error f) ∨
      ReflTransGen (RequestStep i) (s.kept? p).2 (s.request i r.target p) ∧
        ∃ d, s.catalog.get p = .ok d := by
  cases hget : s.catalog.get p with
  | error f =>
      refine .inl ⟨?_, f, rfl⟩
      unfold request
      rw [hget]
      exact RequestStep.of_move hr (.refuse hfresh hgoing fun q hq => htarget q hq ▸ hget)
  | ok d =>
      refine .inr ⟨?_, d, rfl⟩
      obtain ⟨hl, ⟨e, hk, he, hm, hidle⟩ | ⟨hk, -⟩⟩ := kept?_cases s p
      · -- a hit
        obtain ⟨-, hcat, hfl, hreq⟩ := frame_of_lapses hl
        have hreg := Catalog.contains_of_get hget
        unfold request
        rw [hget]
        revert hk he hidle hcat hfl hreq
        clear hl
        generalize s.kept? p = y
        obtain ⟨k, t⟩ := y
        rintro hk he hidle hcat hfl hreq
        dsimp only at *
        subst hk
        rw [← hfl] at hidle
        rw [← hcat] at hreg
        have hhits : Quiet t ({ t with stats := { t.stats with hits := t.stats.hits + 1 } }.report p
          .cached "") := .intro _ _ _ _ _ _ id
        exact .head (.inl hhits) (RequestStep.of_move (hreq ▸ hr)
          (.hit (s := ({ t with stats := _ } : Resolver).report p .cached "") hfresh hgoing htarget
            hreg hidle he hm))
      · obtain ⟨t, hsteps, hr', heq⟩ := exists_requestSteps_join hr hfresh hgoing htarget hget hk
        rw [heq]
        exact hsteps.trans (requestSteps_takeAnswer hr')

/-- Once the host has been asked about outdated results, a request goes on with moves of its own. -/
theorem exists_requestSteps_request {p : String} (hr : s.requests[i]? = some r)
    (hfresh : r.caller = .fresh) (hgoing : r.cancelled = false) (htarget : r.target.Allows p) :
    ∃ t, ReflTransGen Lapse s t ∧ (s.watch = none → t = s) ∧
      ReflTransGen (RequestStep i) t (s.request i r.target p) := by
  rcases requestSteps_request hr hfresh hgoing htarget with ⟨hsteps, -⟩ | ⟨hsteps, -⟩
  · exact ⟨s, .refl, fun _ => rfl, hsteps⟩
  · exact ⟨(s.kept? p).2, (kept?_cases s p).1, fun hw => kept?_of_watch_eq_none hw p, hsteps⟩

/-- What a request does is made of moves of its own, after the host has been asked about outdated
results, if it wants to be. -/
theorem exists_requestSteps_runRequest (s : Resolver) (i : RequestId) :
    ∃ t, ReflTransGen Lapse s t ∧ (s.watch = none → t = s) ∧
      ReflTransGen (RequestStep i) t (s.runRequest i) := by
  unfold runRequest
  split
  · exact ⟨s, .refl, fun _ => rfl, .refl⟩
  · next r hr =>
      split
      · next hfresh =>
          split
          · next h => exact ⟨s, .refl, fun _ => rfl, RequestStep.of_move hr (.quit hfresh h)⟩
          · next h =>
              have hgoing : r.cancelled = false := by simpa using h
              split
              · next p hp =>
                  exact exists_requestSteps_request hr hfresh hgoing fun q hq => by
                    rw [hp] at hq; cases hq; rfl
              · next q hq =>
                  split
                  · next p hp =>
                      exact exists_requestSteps_request hr hfresh hgoing fun q' hq' => by
                        rw [hq] at hq'; cases hq'
                  · exact ⟨s, .refl, fun _ => rfl, RequestStep.of_move hr (.refuse hfresh hgoing fun p hp => by
                      rw [hq] at hp; cases hp)⟩
      · exact ⟨s, .refl, fun _ => rfl, requestSteps_takeAnswer hr⟩
      · exact ⟨s, .refl, fun _ => rfl, .refl⟩

/-- Once the host has been asked about outdated results, a request makes nothing outdated. -/
theorem calm_runRequest (s : Resolver) (i : RequestId) :
    ∃ t, ReflTransGen Lapse s t ∧ (s.watch = none → t = s) ∧
      ReflTransGen Calm t (s.runRequest i) := by
  obtain ⟨t, hl, hw, hsteps⟩ := exists_requestSteps_runRequest s i
  exact ⟨t, hl, hw, calms_of_requestSteps hsteps⟩

theorem Calm.shift (h : Calm s t) : Shift s t := by
  cases h with
  | quiet hq => exact .lapse (.quiet hq)
  | request hr hm => exact .request hr hm

theorem shifts_of_lapses (h : ReflTransGen Lapse s t) : ReflTransGen Shift s t :=
  ReflTransGen.mono (fun _ _ => .lapse) _ _ h

/-- What a request does is made of moves that no flight makes. -/
theorem shifts_runRequest (s : Resolver) (i : RequestId) :
    ReflTransGen Shift s (s.runRequest i) := by
  obtain ⟨t, hl, -, ht⟩ := calm_runRequest s i
  exact (shifts_of_lapses hl).trans (ReflTransGen.mono (fun _ _ => Calm.shift) _ _ ht)

end Resolver

end HashedAssets
