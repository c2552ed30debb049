import HashedAssets.Proofs.Resolver.Wiring

/-!
# What a move changes

Each kind of move is read off once here, from both sides: what becomes of a call or a request, and what a
call, a request, a kept result or an edge of the state after the move was before.

* `RequestMove.hushed`, `Launch`, `FlightMove.request_cases`, `Move.exists_request`: requests;
* `Stage`: how a flight has come to the status that it has after its move (`FlightMove.stage`);
* `Before`: what a call was before a move (`Move.before`), with `Move.exists_call?` for the other direction;
* `Move.frame`, `Move.entry`, `Move.adjacent`: the catalog, what is kept, and the graph.
-/

namespace HashedAssets.Resolver

open SingleFlight Relation

variable {s u : Resolver} {m n : CallId} {i j : RequestId} {c c' : Flight} {r r' : Request}
  {rs rs' : List Request}

/-! ### Requests -/

namespace Hushed

theorem symm (h : Hushed rs rs') : Hushed rs' rs := fun i => (h i).symm

theorem length_le (h : Hushed rs rs') : rs.length ≤ rs'.length := by
  by_contra hlt
  have hi := h rs'.length
  rw [List.getElem?_eq_none (Nat.le_refl _), List.getElem?_eq_getElem (Nat.not_le.1 hlt)] at hi
  cases hi

theorem length_eq (h : Hushed rs rs') : rs'.length = rs.length :=
  Nat.le_antisymm h.symm.length_le h.length_le

theorem exists_eq (h : Hushed rs rs') {i : Nat} (hr : rs'[i]? = some r) :
    ∃ r₀, rs[i]? = some r₀ ∧ r₀.target = r.target ∧ r₀.caller = r.caller := by
  have hi := h i
  rw [hr] at hi
  obtain ⟨r₀, hr₀, he⟩ := Option.map_eq_some_iff.1 hi.symm
  obtain ⟨ht, hc⟩ := Prod.mk.inj he
  exact ⟨r₀, hr₀, ht, hc⟩

end Hushed

namespace RequestMove

/-- A request that goes on changes nothing of the others but whether they are cancelled. -/
theorem hushed (hm : RequestMove s i r u) :
    ∃ rs y, Hushed s.requests rs ∧ u.requests = rs.modify i fun r => { r with caller := y } := by
  cases hm with
  | take _ _ hrs _ => exact ⟨_, _, hrs, rfl⟩
  | _ => exact ⟨s.requests, _, .refl _, rfl⟩

theorem length_eq (hm : RequestMove s i r u) : u.requests.length = s.requests.length := by
  obtain ⟨rs, y, hrs, hu⟩ := hm.hushed
  rw [hu, List.length_modify, hrs.length_eq]

theorem caller_of_ne (hm : RequestMove s i r u) (hji : j ≠ i) (hr' : s.requests[j]? = some r') :
    ∃ r'', u.requests[j]? = some r'' ∧ r''.caller = r'.caller := by
  obtain ⟨rs, y, hrs, hu⟩ := hm.hushed
  obtain ⟨r'', hr'', -, hc⟩ := hrs.symm.exists_eq hr'
  refine ⟨r'', ?_, hc⟩
  rw [hu, List.getElem?_modify, hr'']
  simp [Ne.symm hji]

theorem caller_of_ne' (hm : RequestMove s i r u) (hji : j ≠ i) (hr' : u.requests[j]? = some r') :
    ∃ r₀, s.requests[j]? = some r₀ ∧ r₀.caller = r'.caller := by
  have hlt : j < s.requests.length := hm.length_eq ▸ (List.getElem?_eq_some_iff.1 hr').1
  obtain ⟨r'', hr'', hc⟩ := hm.caller_of_ne hji (List.getElem?_eq_getElem hlt)
  rw [hr'] at hr''; cases hr''
  exact ⟨_, List.getElem?_eq_getElem hlt, hc.symm⟩

/-- A request goes on when it has not asked yet, or to take its answer. -/
theorem fresh_or_waiting (hm : RequestMove s i r u) :
    r.caller = .fresh ∨ ∃ n, r.caller = .waiting n := by
  cases hm with
  | take hw _ _ _ => exact .inr ⟨_, hw⟩
  | quit hf _ => exact .inl hf
  | refuse hf _ _ => exact .inl hf
  | hit hf _ _ _ _ _ _ => exact .inl hf
  | join hf _ _ _ => exact .inl hf
  | launch hf _ _ _ _ _ => exact .inl hf

theorem not_done (hm : RequestMove s i r u) (o : Outcome Answer) : r.caller ≠ .done o := by
  intro ho
  rcases hm.fresh_or_waiting with hf | ⟨n, hw⟩
  · rw [hf] at ho; cases ho
  · rw [hw] at ho; cases ho

/-- So one that has ended is left as it is. -/
theorem exists_done (hm : RequestMove s i r u) (hr : s.requests[i]? = some r) {o : Outcome Answer}
    (hr' : s.requests[j]? = some r') (ho : r'.caller = .done o) :
    ∃ r'', u.requests[j]? = some r'' ∧ r''.caller = .done o := by
  have hji : j ≠ i := by
    rintro rfl
    rw [hr] at hr'; cases hr'
    exact hm.not_done o ho
  obtain ⟨r'', hr'', hc⟩ := hm.caller_of_ne hji hr'
  exact ⟨r'', hr'', hc.trans ho⟩

/-- A request that waits for a flight goes on to take its answer. -/
theorem of_waiting (hm : RequestMove s i r u) (hr : s.requests[i]? = some r)
    (hw : r.caller = .waiting n) : ∃ o r', s.flights.answer? r.cancelled n = some o ∧
      u.requests[i]? = some r' ∧ r'.caller = .done (r.target.acceptOutcome (s.pathOf n) o) := by
  cases hm with
  | @take m o rs hw' hans hrs _ =>
      rw [hw] at hw'; cases hw'
      obtain ⟨r', hr', -, -⟩ := hrs.symm.exists_eq hr
      refine ⟨o, { r' with caller := .done (r.target.acceptOutcome (s.pathOf n) o) }, hans, ?_, rfl⟩
      rw [getElem?_setCaller, if_pos rfl]
      show (rs[i]?).map _ = _
      rw [hr']
      rfl
  | quit hf _ => rw [hf] at hw; cases hw
  | refuse hf _ _ => rw [hf] at hw; cases hw
  | hit hf _ _ _ _ _ _ => rw [hf] at hw; cases hw
  | join hf _ _ _ => rw [hf] at hw; cases hw
  | launch hf _ _ _ _ _ => rw [hf] at hw; cases hw

end RequestMove

/-- How a request has begun a flight: it goes on for the first time, for a registered path that its target
can stand for, without a flight and without a kept result that can be used; and it waits for the flight. -/
structure Launch (s : Resolver) (i : RequestId) (r : Request) (u : Resolver) (c : Flight) : Prop where
  fresh : r.caller = .fresh
  going : r.cancelled = false
  target : r.target.Allows c.key
  registered : s.catalog.contains c.key = true
  idle : s.flights.slots.get? c.key = none
  marked : ∀ e, s.entries.get? c.key = some e → e.needsCheck = true
  begun : c = ⟨c.key, .running .launched, 1, false⟩
  waits : s.requests[i]? = some r →
    ∃ r', u.requests[i]? = some r' ∧ r'.caller = .waiting s.flights.calls.length

/-- A flight that was not there before a request went on has been begun by it. -/
theorem RequestMove.begins (hm : RequestMove s i r u)
    (hc : u.flights.call? s.flights.calls.length = some c) : Launch s i r u c := by
  have hlt := Table.lt_of_call?_eq_some hc
  cases hm with
  | @launch p hfresh hgo htarget hreg hidle hmarked =>
      have hc' : Table.call? ⟨_, s.flights.calls ++ [(⟨p, .running .launched, 1, false⟩ : Flight)]⟩
          s.flights.calls.length = some c := hc
      rw [Table.call?_append, if_pos rfl] at hc'
      cases hc'
      exact ⟨hfresh, hgo, htarget, hreg, hidle, hmarked, rfl, fun hr =>
        ⟨{ r with caller := .waiting s.flights.calls.length },
          by rw [getElem?_setCaller, if_pos rfl]; exact congrArg _ hr, rfl⟩⟩
  | join _ _ _ _ => exact absurd ((Table.length_modify _ _ _).symm ▸ hlt) (Nat.lt_irrefl _)
  | take _ _ _ _ => exact absurd ((Table.length_detach _ _).symm ▸ hlt) (Nat.lt_irrefl _)
  | _ => exact absurd hlt (Nat.lt_irrefl _)

/-- A flight may make requests, but does nothing to those that are there. -/
theorem FlightMove.requests (hm : FlightMove s n c u) :
    ∃ new, u.requests = s.requests ++ new ∧ ∀ r ∈ new, r.caller = .fresh := by
  have hnone : ∃ new, s.requests = s.requests ++ new ∧ ∀ r ∈ new, r.caller = .fresh :=
    ⟨[], by simp, by simp⟩
  have hsome : ∀ es, ∃ new, s.requests ++ (ascending (Edge.targets es)).map
      (fun t => (⟨.logical t, .fresh, false⟩ : Request)) = s.requests ++ new ∧
      ∀ r ∈ new, r.caller = .fresh := fun es => ⟨_, rfl, fun r hr => by
    obtain ⟨t, -, rfl⟩ := List.mem_map.1 hr
    rfl⟩
  cases hm with
  | recheck _ _ _ _ => exact hsome _
  | gather _ _ _ _ _ _ => exact hsome _
  | _ => exact hnone

theorem FlightMove.length_le (hm : FlightMove s n c u) : s.requests.length ≤ u.requests.length := by
  obtain ⟨new, hnew, -⟩ := hm.requests
  rw [hnew, List.length_append]
  exact Nat.le_add_right _ _

theorem FlightMove.getElem? (hm : FlightMove s n c u) (hr : s.requests[i]? = some r) :
    u.requests[i]? = some r := by
  obtain ⟨new, hnew, -⟩ := hm.requests
  rw [hnew, List.getElem?_append_left (List.getElem?_eq_some_iff.1 hr).1]
  exact hr

/-- The requests that a flight makes are fresh, and nobody has cancelled them. -/
theorem FlightMove.request_cases (hm : FlightMove s n c u) (hr : u.requests[i]? = some r) :
    s.requests[i]? = some r ∨ s.requests.length ≤ i ∧ r.caller = .fresh ∧ r.cancelled = false := by
  have hnew : ∀ ps : List String,
      (s.requests ++ ps.map fun t => (⟨.logical t, .fresh, false⟩ : Request))[i]? = some r →
      s.requests[i]? = some r ∨ s.requests.length ≤ i ∧ r.caller = .fresh ∧ r.cancelled = false := by
    intro ps hr
    refine (request_of_append hr).imp_right fun ⟨hge, hmem⟩ => ?_
    obtain ⟨t, -, rfl⟩ := List.mem_map.1 hmem
    exact ⟨hge, rfl, rfl⟩
  cases hm with
  | recheck _ _ _ _ => exact hnew _ hr
  | gather _ _ _ _ _ _ => exact hnew _ hr
  | _ => exact .inl hr

/-- A request asks for what it has asked for. It stays as it is, or it goes on for the first time, or it
waits for a flight and takes its answer. -/
theorem Move.exists_request (hm : Move s u) (hr : s.requests[i]? = some r) :
    ∃ r', u.requests[i]? = some r' ∧ r'.target = r.target ∧
      (r'.caller = r.caller ∨ r.caller = .fresh ∨ ∃ n o, r.caller = .waiting n ∧
        s.flights.answer? r.cancelled n = some o ∧
        r'.caller = .done (r.target.acceptOutcome (s.pathOf n) o)) := by
  rcases hm with hm | ⟨k, hq | ⟨f, hf, hm⟩⟩
  · cases hm with
    | lapse hl => exact ⟨r, by rw [hl.frame.2.2.2]; exact hr, rfl, .inl rfl⟩
    | ask _ =>
        exact ⟨r, (List.getElem?_append_left (List.getElem?_eq_some_iff.1 hr).1).trans hr, rfl, .inl rfl⟩
    | forget _ _ => exact ⟨r, hr, rfl, .inl rfl⟩
    | @request j r₀ _ hr₀ hreq =>
        obtain ⟨rs, y, hrs, hu⟩ := hreq.hushed
        obtain ⟨r₁, hr₁, ht₁, hc₁⟩ := hrs.symm.exists_eq hr
        have hget : u.requests[i]? = some (if j = i then { r₁ with caller := y } else r₁) := by
          rw [hu, List.getElem?_modify, hr₁]
          rfl
        by_cases hji : j = i
        · subst hji
          rw [hr] at hr₀; cases hr₀
          refine ⟨_, hget, by rw [if_pos rfl]; exact ht₁, .inr ?_⟩
          refine hreq.fresh_or_waiting.imp_right fun ⟨n, hw⟩ => ?_
          obtain ⟨o, r', hans, hr', hd⟩ := hreq.of_waiting hr hw
          rw [hget] at hr'
          exact ⟨n, o, hw, hans, Option.some.inj hr' ▸ hd⟩
        · exact ⟨r₁, by rw [hget, if_neg hji], ht₁, .inl hc₁⟩
  · cases hq; exact ⟨r, hr, rfl, .inl rfl⟩
  · exact ⟨r, hm.getElem? hr, rfl, .inl rfl⟩

/-! ### Flights that move -/

theorem FailCause.isRunning {f : Failure} (h : FailCause s c f) : c.isRunning = true := by
  cases h with
  | unregistered hs _ =>
      rcases hs with hs | ⟨fetched, hs⟩ <;> exact isRunning_of_status hs
  | unread hs _ => exact isRunning_of_status hs
  | unprepared hs _ _ _ => exact isRunning_of_status hs
  | target hs _ _ => exact isRunning_of_status hs
  | unresolved hs _ _ => exact isRunning_of_status hs

/-- Only a flight under way moves. -/
theorem FlightMove.isRunning (hm : FlightMove s n c u) : c.isRunning = true := by
  cases hm with
  | stop hst _ => exact isRunning_of_status hst
  | abandon hst _ _ => exact isRunning_of_status hst
  | hold hst _ _ _ => exact isRunning_of_status hst
  | recheck hst _ _ _ => exact isRunning_of_status hst
  | gather hst _ _ _ _ _ => exact isRunning_of_status hst
  | cycle hst _ _ _ _ _ => exact isRunning_of_status hst
  | fail _ hcause _ => exact hcause.isRunning
  | crash _ hcause _ => exact hcause.isRunning
  | land _ hl _ => exact hl.isRunning
  | discard _ hl _ => exact hl.isRunning

theorem call?_finish_self (hc : s.flights.call? n = some c) (o : Outcome Answer) :
    (s.flights.finish n o).call? n = some { c with status := .finished o } := by
  rw [Table.call?_finish, if_pos rfl, hc]; rfl

theorem call?_await_self (hc : s.flights.call? n = some c) (a : Prepared) (es : List Edge)
    (kept : Option Resolved) : (s.await n a es kept).flights.call? n = some { c with
      status := .running (.gathering a es kept
        ((List.range (ascending (Edge.targets es)).length).map (· + s.requests.length))) } := by
  rw [Resolver.await, Table.call?_progress, if_pos rfl, hc]; rfl

/-- How far a flight has come. -/
def rank : SingleFlight.Status Phase Answer → Nat
  | .running .launched => 0
  | .running (.loading _) => 1
  | .running (.gathering ..) => 2
  | .finished _ => 3

theorem rank_le (st : SingleFlight.Status Phase Answer) : rank st ≤ 3 := by
  match st with
  | .running .launched => exact Nat.zero_le 3
  | .running (.loading _) => exact Nat.le_of_ble_eq_true rfl
  | .running (.gathering ..) => exact Nat.le_of_ble_eq_true rfl
  | .finished _ => exact Nat.le_refl 3

theorem rank_lt_of_isRunning (h : c.isRunning = true) (o : Outcome Answer) :
    rank c.status < rank (.finished o) := by
  obtain ⟨w, hst⟩ := isRunning_iff.1 h
  rw [hst]
  cases w <;> simp [rank]

/-- Behind waiting there is nothing but the end. -/
theorem exists_finished_of_lt {st : SingleFlight.Status Phase Answer} (h : 2 < rank st) :
    ∃ o, st = .finished o := by
  match st with
  | .running .launched => simp [rank] at h
  | .running (.loading _) => simp [rank] at h
  | .running (.gathering ..) => simp [rank] at h
  | .finished o => exact ⟨o, rfl⟩

/-- How a flight of the state `s` has come to a status with its move to the state `u`: it holds what its
source has given; it waits for the requests that it has made, to check a kept result or with an asset that
it has prepared; or it has ended. -/
inductive Stage (s : Resolver) (c : Flight) (u : Resolver) : SingleFlight.Status Phase Answer → Prop
  | held {d : Definition} (status : c.status = .running .launched)
      (get : s.catalog.get c.key = .ok d) (catalog : u.catalog = (s.catalog.fetch d).2) :
      Stage s c u (.running (.loading (s.catalog.fetch d).1))
  | rechecks {e : Entry} {children : List RequestId} (status : c.status = .running .launched)
      (entry : s.entries.get? c.key = some e) (marked : e.needsCheck = true)
      (asked : ∀ i, i ∈ children ↔ s.requests.length ≤ i ∧ i < u.requests.length) :
      Stage s c u (.running (.gathering e.asset e.resolved.edges (some e.resolved) children))
  | gathers {fetched : Catalog.Fetch} {raw : Bytes} {d : Definition} {a : Prepared} {es : List Edge}
      {children : List RequestId} (status : c.status = .running (.loading fetched))
      (result : fetched.result = .ok raw) (get : s.catalog.get c.key = .ok d)
      (prepare : s.context.prepare s.catalog d raw = .ok (a, es))
      (graph : u.graph = s.graph.setEdges c.key es)
      (asked : ∀ i, i ∈ children ↔ s.requests.length ≤ i ∧ i < u.requests.length) :
      Stage s c u (.running (.gathering a es none children))
  | stopped (cause : c.cancelled = true ∨ ∃ a es kept children,
      c.status = .running (.gathering a es kept children) ∧
      (∀ i ∈ children, (s.outcome? i).isSome = true) ∧ s.collect children = .cancelled) :
      Stage s c u (.finished .cancelled)
  | failed {f : Failure} (cause : FailCause s c f) : Stage s c u (.finished (.result (.error f)))
  | cyclic {fetched : Catalog.Fetch} {raw : Bytes} {d : Definition} {a : Prepared} {es : List Edge}
      {paths : List String} (status : c.status = .running (.loading fetched))
      (result : fetched.result = .ok raw) (get : s.catalog.get c.key = .ok d)
      (prepare : s.context.prepare s.catalog d raw = .ok (a, es))
      (cycle : (s.graph.setEdges c.key es).cycleThrough? c.key = some paths) :
      Stage s c u (.finished (.result (.error (.fault (.cycle paths)))))
  | landed {m : PathMap Entry} {r : Resolved} (going : c.cancelled = false) (landing : Landing s c m r)
      (entries : u.entries = m ∨ c.key ∈ s.dropOnLanding) :
      Stage s c u (.finished (.result (.ok r)))

theorem mem_children_await (s : Resolver) (n : CallId) (a : Prepared) (es : List Edge)
    (kept : Option Resolved) (i : RequestId) :
    i ∈ (List.range (ascending (Edge.targets es)).length).map (· + s.requests.length) ↔
      s.requests.length ≤ i ∧ i < (s.await n a es kept).requests.length := by
  simp only [List.mem_map, List.mem_range, Resolver.await, List.length_append, List.length_map]
  constructor
  · rintro ⟨j, hj, rfl⟩
    exact ⟨Nat.le_add_left _ _, Nat.add_comm j _ ▸ Nat.add_lt_add_left hj _⟩
  · rintro ⟨hle, hlt⟩
    exact ⟨i - s.requests.length, Nat.sub_lt_left_of_lt_add hle hlt, Nat.sub_add_cancel hle⟩

namespace FlightMove

/-- With each move a flight comes further. -/
theorem exists_stage (hm : FlightMove s n c u) (hc : s.flights.call? n = some c) :
    ∃ st, u.flights.call? n = some { c with status := st } ∧ rank c.status < rank st ∧ Stage s c u st := by
  have hends : ∀ o, rank c.status < rank (.finished o) := rank_lt_of_isRunning hm.isRunning
  cases hm with
  | stop _ hcan => exact ⟨_, call?_finish_self hc _, hends _, .stopped (.inl hcan)⟩
  | abandon hst _ hcause =>
      exact ⟨_, call?_finish_self hc _, hends _, .stopped (hcause.imp_right
        fun ⟨a, es, kept, children, hw, hans⟩ => ⟨a, es, kept, children, hw ▸ hst, hans⟩)⟩
  | hold hst _ _ hget =>
      exact ⟨_, by rw [Table.call?_progress, if_pos rfl, hc]; rfl, by simp [rank, hst],
        .held hst hget rfl⟩
  | recheck hst _ he hmarked =>
      exact ⟨_, call?_await_self hc _ _ _, by simp [rank, hst],
        .rechecks hst he hmarked (mem_children_await s n _ _ _)⟩
  | @gather _ _ _ _ es hst _ hres hget hprep _ =>
      let t : Resolver := { s with graph := s.graph.setEdges c.key es }
      exact ⟨_, call?_await_self (s := t) hc _ _ _, by simp [rank, hst],
        .gathers hst hres hget hprep rfl (mem_children_await t n _ _ _)⟩
  | cycle hst _ hres hget hprep hcyc =>
      exact ⟨_, call?_finish_self hc _, hends _, .cyclic hst hres hget hprep hcyc⟩
  | fail _ hcause _ => exact ⟨_, call?_finish_self hc _, hends _, .failed hcause⟩
  | crash _ hcause _ => exact ⟨_, call?_finish_self hc _, hends _, .failed hcause⟩
  | land hgo hl _ => exact ⟨_, call?_finish_self hc _, hends _, .landed hgo hl (.inl rfl)⟩
  | discard hgo hl hd => exact ⟨_, call?_finish_self hc _, hends _, .landed hgo hl (.inr hd)⟩

theorem call? (hm : FlightMove s n c u) (hc : s.flights.call? n = some c) :
    ∃ st, u.flights.call? n = some { c with status := st } ∧ rank c.status < rank st := by
  obtain ⟨st, hst, hrank, -⟩ := hm.exists_stage hc
  exact ⟨st, hst, hrank⟩

theorem stage (hm : FlightMove s n c u) (hc : s.flights.call? n = some c)
    (hc' : u.flights.call? n = some c') : Stage s c u c'.status := by
  obtain ⟨st, hst, -, hstage⟩ := hm.exists_stage hc
  rw [hst] at hc'; cases hc'
  exact hstage

/-- A flight moves no other one. -/
theorem call?_of_ne (hm : FlightMove s n c u) {m : CallId} (hmn : m ≠ n) :
    u.flights.call? m = s.flights.call? m := by
  cases hm <;> simp [ended, takeBack, Resolver.await, hmn]

/-- A flight leaves the slots as they are. -/
theorem slots (hm : FlightMove s n c u) : u.flights.slots = s.flights.slots := by
  cases hm <;> rfl

theorem length_calls (hm : FlightMove s n c u) :
    u.flights.calls.length = s.flights.calls.length := by
  cases hm <;> exact Table.length_modify _ _ _

/-- A call after the move of a flight is that of the flight, which has come further, or it was there. -/
theorem call?_cases (hm : FlightMove s n c u) (hc : s.flights.call? n = some c)
    (hc' : u.flights.call? m = some c') :
    (m = n ∧ ∃ st, c' = { c with status := st } ∧ rank c.status < rank st) ∨
      m ≠ n ∧ s.flights.call? m = some c' := by
  by_cases hmn : m = n
  · subst hmn
    obtain ⟨st, hst, hrank⟩ := hm.call? hc
    rw [hst] at hc'; cases hc'
    exact .inl ⟨rfl, st, rfl, hrank⟩
  · exact .inr ⟨hmn, hm.call?_of_ne hmn ▸ hc'⟩

/-- A flight that comes to wait has made the requests that it waits for, and no others. -/
theorem children (hm : FlightMove s n c u) (hc : s.flights.call? n = some c)
    (hc' : u.flights.call? n = some c') {a : Prepared} {es : List Edge} {kept : Option Resolved}
    {children : List RequestId} (hst : c'.status = .running (.gathering a es kept children)) :
    ∀ i, i ∈ children ↔ s.requests.length ≤ i ∧ i < u.requests.length := by
  have hstage := hm.stage hc hc'
  rw [hst] at hstage
  cases hstage with
  | rechecks _ _ _ hmem => exact hmem
  | gathers _ _ _ _ _ hmem => exact hmem

/-- Only a flight that comes to wait makes requests. -/
theorem exists_gathering (hm : FlightMove s n c u) (hc : s.flights.call? n = some c)
    (hlen : u.requests.length ≠ s.requests.length) :
    ∃ c' a es kept children, u.flights.call? n = some c' ∧
      c'.status = .running (.gathering a es kept children) := by
  cases hm with
  | recheck _ _ _ _ => exact ⟨_, _, _, _, _, call?_await_self hc _ _ _, rfl⟩
  | gather _ _ _ _ _ _ =>
      exact ⟨_, _, _, _, _, call?_await_self (s := { s with graph := _ }) hc _ _ _, rfl⟩
  | _ => exact absurd rfl hlen

end FlightMove

/-! ### Calls -/

/-- Moves that no flight makes leave all calls as far as they are, and begin new ones. -/
theorem Shift.call? (hm : Shift s u) {m : CallId} {c' : Flight} (hc' : u.flights.call? m = some c') :
    (∃ c, s.flights.call? m = some c ∧ c.key = c'.key ∧ c.status = c'.status ∧
      (c'.cancelled = false → c.cancelled = false)) ∨
    (m = s.flights.calls.length ∧ c'.status = .running .launched) := by
  cases hm with
  | lapse hl =>
      obtain ⟨-, -, hf, -⟩ := hl.frame
      rw [hf] at hc'
      exact .inl ⟨c', hc', rfl, rfl, id⟩
  | ask t => exact .inl ⟨c', hc', rfl, rfl, id⟩
  | forget _ _ =>
      rw [Table.call?_forget] at hc'
      exact .inl ⟨c', hc', rfl, rfl, id⟩
  | request _ hreq =>
      cases hreq with
      | quit _ _ => exact .inl ⟨c', hc', rfl, rfl, id⟩
      | refuse _ _ _ => exact .inl ⟨c', hc', rfl, rfl, id⟩
      | hit _ _ _ _ _ _ _ => exact .inl ⟨c', hc', rfl, rfl, id⟩
      | @join _ n _ _ _ _ =>
          rcases Table.call?_modify_cases hc' with ⟨-, c, hc, rfl⟩ | ⟨-, hc⟩
          · exact .inl ⟨c, hc, rfl, rfl, id⟩
          · exact .inl ⟨c', hc, rfl, rfl, id⟩
      | launch _ _ _ _ _ _ =>
          rcases Table.call?_append_cases hc' with ⟨hm, rfl⟩ | hc
          · exact .inr ⟨hm, rfl⟩
          · exact .inl ⟨c', hc, rfl, rfl, id⟩
      | @take n _ _ _ _ _ _ =>
          have hc'' : (s.flights.detach n).call? m = some c' := hc'
          have hsame := Table.call?_detach s.flights n m
          rw [hc''] at hsame
          obtain ⟨c, hc, he⟩ := Option.map_eq_some_iff.1 hsame.symm
          obtain ⟨hk, hst⟩ := Prod.mk.inj he
          exact .inl ⟨c, hc, hk, hst, fun hgo => Table.cancelled_detach hc hc'' hgo⟩

/-- Moves that no flight makes leave all calls as far as they are. -/
theorem Shift.exists_call? (hm : Shift s u) {m : CallId} {c : Flight} (hc : s.flights.call? m = some c) :
    ∃ c', u.flights.call? m = some c' ∧ c'.key = c.key ∧ c'.status = c.status := by
  cases hm with
  | lapse hl =>
      obtain ⟨-, -, hf, -⟩ := hl.frame
      exact ⟨c, hf ▸ hc, rfl, rfl⟩
  | ask t => exact ⟨c, hc, rfl, rfl⟩
  | forget _ _ => exact ⟨c, by rw [Table.call?_forget]; exact hc, rfl, rfl⟩
  | request _ hreq =>
      cases hreq with
      | @join _ n _ _ _ _ =>
          by_cases hmn : m = n
          · exact ⟨{ c with waiters := c.waiters + 1 },
              (Table.call?_modify _ _ _ _).trans (by rw [if_pos hmn, hc]; rfl), rfl, rfl⟩
          · exact ⟨c, (Table.call?_modify _ _ _ _).trans (by rw [if_neg hmn]; exact hc), rfl, rfl⟩
      | launch _ _ _ _ _ _ =>
          exact ⟨c, (Table.call?_append _ _ _ _).trans
            (by rw [if_neg (Nat.ne_of_lt (Table.lt_of_call?_eq_some hc))]; exact hc), rfl, rfl⟩
      | @take n _ _ _ _ _ _ =>
          have hsame := Table.call?_detach s.flights n m
          rw [hc] at hsame
          obtain ⟨c', hc', he⟩ := Option.map_eq_some_iff.1 hsame
          obtain ⟨hk, hst⟩ := Prod.mk.inj he
          exact ⟨c', hc', hk, hst⟩
      | _ => exact ⟨c, hc, rfl, rfl⟩

/-- A flight that has just begun has not been asked to stop. -/
theorem Shift.cancelled_of_length (hm : Shift s u)
    (hc : u.flights.call? s.flights.calls.length = some c) : c.cancelled = false := by
  have hold : u.flights.calls.length = s.flights.calls.length → c.cancelled = false := fun hlen =>
    absurd (hlen ▸ Table.lt_of_call?_eq_some hc) (Nat.lt_irrefl _)
  cases hm with
  | lapse hl => exact hold (by rw [hl.frame.2.2.1])
  | ask _ => exact hold rfl
  | forget _ _ => exact hold (Table.length_forget _ _)
  | request _ hreq => exact congrArg Call.cancelled (hreq.begins hc).begun

/-- What a call was before a move: as far as it is, or not there yet, or it has come further by this
move. -/
inductive Before (s u : Resolver) (m : CallId) : Flight → Prop
  | same {c c' : Flight} (call : s.flights.call? m = some c) (key : c.key = c'.key)
      (status : c.status = c'.status) (going : c'.cancelled = false → c.cancelled = false) :
      Before s u m c'
  | begun {c' : Flight} (number : m = s.flights.calls.length) (status : c'.status = .running .launched)
      (going : c'.cancelled = false) : Before s u m c'
  | moved {c : Flight} {st : SingleFlight.Status Phase Answer} (call : s.flights.call? m = some c)
      (move : FlightMove s m c u) : Before s u m { c with status := st }

theorem Move.before (hm : Move s u) (hc : u.flights.call? m = some c) : Before s u m c := by
  rcases hm with hm | ⟨n, hq | ⟨c₀, hc₀, hm⟩⟩
  · rcases hm.call? hc with ⟨c₀, hc₀, hk, hst, hgo⟩ | ⟨hlen, hst⟩
    · exact .same hc₀ hk hst hgo
    · exact .begun hlen hst (hm.cancelled_of_length (hlen ▸ hc))
  · cases hq; exact .same hc rfl rfl id
  · rcases hm.call?_cases hc₀ hc with ⟨rfl, st, rfl, -⟩ | ⟨-, hc⟩
    · exact .moved hc₀ hm
    · exact .same hc rfl rfl id

/-- A call stays as far as it is, or comes further. -/
theorem Move.exists_call? (hm : Move s u) (hc : s.flights.call? m = some c) :
    ∃ c', u.flights.call? m = some c' ∧ c'.key = c.key ∧
      (c'.status = c.status ∨ rank c.status < rank c'.status) := by
  rcases hm with hm | ⟨n, hq | ⟨c₀, hc₀, hm⟩⟩
  · obtain ⟨c', hc', hk, hst⟩ := hm.exists_call? hc
    exact ⟨c', hc', hk, .inl hst⟩
  · cases hq; exact ⟨c, hc, rfl, .inl rfl⟩
  · by_cases hmn : m = n
    · subst hmn
      rw [hc] at hc₀; cases hc₀
      obtain ⟨st, hst, hrank⟩ := hm.call? hc
      exact ⟨_, hst, rfl, .inr hrank⟩
    · exact ⟨c, by rw [hm.call?_of_ne hmn]; exact hc, rfl, .inl rfl⟩

/-- What a flight has ended with stays. -/
theorem Move.finished (hm : Move s u) (hc : s.flights.call? m = some c) {o : Outcome Answer}
    (ho : c.status = .finished o) :
    ∃ c', u.flights.call? m = some c' ∧ c'.key = c.key ∧ c'.status = .finished o := by
  obtain ⟨c', hc', hk, hst | hlt⟩ := hm.exists_call? hc
  · exact ⟨c', hc', hk, hst.trans ho⟩
  · rw [ho] at hlt
    exact absurd (rank_le c'.status) (Nat.not_le.2 hlt)

/-! ### The rest of a state before and after a move -/

/-- Nothing changes what a resolver works with. -/
theorem Move.frame (hm : Move s u) :
    u.context = s.context ∧ u.catalog.entries = s.catalog.entries := by
  rcases hm with hm | ⟨n, hq | ⟨c, hc, hm⟩⟩
  · cases hm with
    | lapse hl => exact ⟨hl.frame.1, congrArg _ hl.frame.2.1⟩
    | ask _ => exact ⟨rfl, rfl⟩
    | forget _ _ => exact ⟨rfl, rfl⟩
    | request _ hreq => cases hreq <;> exact ⟨rfl, rfl⟩
  · cases hq; exact ⟨rfl, rfl⟩
  · cases hm with
    | hold _ _ _ _ => exact ⟨rfl, Catalog.entries_fetch _ _⟩
    | _ => exact ⟨rfl, rfl⟩

/-- What is left when something becomes outdated was kept before; it may be marked. -/
theorem Lapse.entry (hm : Lapse s u) {p : String} {e : Entry} (he : u.entries.get? p = some e) :
    ∃ e₀, s.entries.get? p = some e₀ ∧ e₀.asset = e.asset ∧ e₀.resolved = e.resolved ∧
      (e.needsCheck = false → e₀.needsCheck = false) := by
  cases hm with
  | quiet hq => cases hq; exact ⟨e, he, rfl, rfl, id⟩
  | drop _ => exact ⟨e, (get?_of_get?_erase he).2, rfl, rfl, id⟩
  | defer _ => exact ⟨e, he, rfl, rfl, id⟩
  | mark _ =>
      obtain ⟨e₀, he₀, ⟨-, rfl⟩ | ⟨-, rfl⟩⟩ := of_get?_modify he
      · exact ⟨e₀, he₀, rfl, rfl, fun hn => by cases hn⟩
      · exact ⟨e, he₀, rfl, rfl, id⟩

/-- What is kept was kept before, or a flight has just ended with it. -/
theorem Move.entry (hm : Move s u) (hs : Coherent s) {p : String} {e : Entry}
    (he : u.entries.get? p = some e) :
    (∃ e₀, s.entries.get? p = some e₀ ∧ e₀.asset = e.asset ∧ e₀.resolved = e.resolved ∧
      (e.needsCheck = false → e₀.needsCheck = false)) ∨
    ∃ n c m, s.flights.call? n = some c ∧ c.cancelled = false ∧ c.key = p ∧
      Landing s c m e.resolved ∧ m.get? p = some e ∧
      u.flights.call? n = some { c with status := .finished (.result (.ok e.resolved)) } := by
  have hsame : s.entries.get? p = some e → ∃ e₀, s.entries.get? p = some e₀ ∧ e₀.asset = e.asset ∧
      e₀.resolved = e.resolved ∧ (e.needsCheck = false → e₀.needsCheck = false) :=
    fun h => ⟨e, h, rfl, rfl, id⟩
  rcases hm with hm | ⟨n, hq | ⟨c, hc, hm⟩⟩
  · left
    cases hm with
    | lapse hl => exact hl.entry he
    | ask _ => exact hsame he
    | forget _ _ => exact hsame he
    | request _ hreq => cases hreq <;> exact hsame he
  · cases hq; exact .inl (hsame he)
  · -- a flight that lands touches what is kept under its own key only
    have hland : ∀ {m r}, c.cancelled = false → Landing s c m r → m.get? p = some e →
        s.entries.get? p = some e ∨ c.key = p ∧ e.resolved = r := fun {m r} hgo hl he => by
      obtain ⟨hother, e', he', -, hr, -⟩ := hl.get? hs hc hgo
      by_cases hp : p = c.key
      · subst hp
        rw [he] at he'; cases he'
        exact .inr ⟨rfl, hr⟩
      · exact .inl (hother p hp ▸ he)
    cases hm with
    | land hgo hl _ =>
        rcases hland hgo hl he with h | ⟨hp, rfl⟩
        · exact .inl (hsame h)
        · exact .inr ⟨n, c, _, hc, hgo, hp, hl, he, call?_finish_self hc _⟩
    | discard hgo hl _ =>
        obtain ⟨hne, he⟩ := get?_of_get?_erase he
        rcases hland hgo hl he with h | ⟨hp, -⟩
        · exact .inl (hsame h)
        · exact absurd hp.symm hne
    | _ => exact .inl (hsame he)

/-- A flight changes the edges of its own path only. -/
theorem FlightMove.edgesOf_of_ne (hm : FlightMove s n c u) (hs : Coherent s) {q : String}
    (hq : q ≠ c.key) : u.graph.edgesOf q = s.graph.edgesOf q := by
  have hback : (s.graph.setEdges c.key []).edgesOf q = s.graph.edgesOf q := by
    rw [Graph.edgesOf_setEdges_nil, if_neg hq]
  cases hm with
  | abandon _ _ _ => exact hback
  | gather _ _ _ hget hprep _ => exact (Graph.edgesOf_setEdges (hs.sorted_of_prepare hget hprep) q).trans (if_neg hq)
  | cycle _ _ _ hget hprep _ =>
      show ((s.graph.setEdges c.key _).setEdges c.key []).edgesOf q = _
      rw [Graph.edgesOf_setEdges_nil, if_neg hq,
        Graph.edgesOf_setEdges (hs.sorted_of_prepare hget hprep), if_neg hq]
  | fail _ _ _ => exact hback
  | discard _ _ _ => exact hback
  | _ => rfl

/-- An edge was in the graph before, or it is one of an asset that a flight has just loaded. -/
theorem Move.adjacent (hm : Move s u) (hs : Coherent s) {p q : String} (hpq : u.graph.Adjacent p q) :
    s.graph.Adjacent p q ∨
    ∃ n c fetched raw d a es, s.flights.call? n = some c ∧ c.key = p ∧
      c.status = .running (.loading fetched) ∧ fetched.result = .ok raw ∧ s.catalog.get p = .ok d ∧
      s.context.prepare s.catalog d raw = .ok (a, es) ∧ q ∈ Edge.targets es := by
  -- edges are taken away in many cases and drawn in two: where a flight has read its source
  have hback : ∀ {g : Graph} {k : String}, (g.setEdges k []).Adjacent p q → g.Adjacent p q :=
    fun h => by
      rw [Graph.Adjacent, Graph.targetsOf, Graph.edgesOf_setEdges_nil] at h
      split at h
      · cases h
      · exact h
  rcases hm with hm | ⟨n, hq | ⟨c, hc, hm⟩⟩
  · cases hm with
    | lapse hl =>
        cases hl with
        | quiet hq => cases hq; exact .inl hpq
        | drop _ => exact .inl (hback hpq)
        | defer _ => exact .inl hpq
        | mark _ => exact .inl hpq
    | ask _ => exact .inl hpq
    | forget _ _ => exact .inl hpq
    | request _ hreq => cases hreq <;> exact .inl hpq
  · cases hq; exact .inl hpq
  · have hset : ∀ {fetched raw d a es}, c.status = .running (.loading fetched) →
        fetched.result = .ok raw → s.catalog.get c.key = .ok d →
        s.context.prepare s.catalog d raw = .ok (a, es) → (s.graph.setEdges c.key es).Adjacent p q →
        s.graph.Adjacent p q ∨
          ∃ n c fetched raw d a es, s.flights.call? n = some c ∧ c.key = p ∧
            c.status = .running (.loading fetched) ∧ fetched.result = .ok raw ∧
            s.catalog.get p = .ok d ∧ s.context.prepare s.catalog d raw = .ok (a, es) ∧
            q ∈ Edge.targets es := fun {fetched raw d a es} hst hres hd hp h => by
      rw [Graph.Adjacent, Graph.targetsOf, Graph.edgesOf_setEdges (hs.sorted_of_prepare hd hp)] at h
      split at h
      · next hk => subst hk; exact .inr ⟨n, c, fetched, raw, d, a, es, hc, rfl, hst, hres, hd, hp, h⟩
      · exact .inl h
    cases hm with
    | abandon _ _ _ => exact .inl (hback hpq)
    | gather hst _ hres hd hp _ => exact hset hst hres hd hp hpq
    | cycle hst _ hres hd hp _ => exact hset hst hres hd hp (hback hpq)
    | fail _ _ _ => exact .inl (hback hpq)
    | discard _ _ _ => exact .inl (hback hpq)
    | _ => exact .inl hpq

end HashedAssets.Resolver
