import HashedAssets.Proofs.Graph.Search
import HashedAssets.Proofs.Resolver.Idle
import Mathlib.Data.Fintype.Pigeonhole
import Mathlib.Data.Set.Finite.List

/-!
# Flights that wait for one another

A flight waits for the flights of what its asset needs. The graph is searched for a cycle before a
flight waits, so that no flights wait for one another, but for those that check a kept result: they
rely on the edges that were written with it, and these may be lost.

* `WaitsFor`: the flight of one path waits for that of another;
* `Run.acyclic`: the graph never has a cycle;
* `exists_lost_of_waitsFor`: flights that wait in a circle are those of a path that has lost its edges;
* `pending_iff_exists_circle`: when nothing can go on, requests are left just if there is such a circle;
* `exists_circle_iff_of_course`: both together; `exists_course_circle`: a run that ends in a circle.
-/

namespace HashedAssets.Resolver

open SingleFlight Relation

variable {s u : Resolver} {lost : List String} {n : CallId} {c : Flight}

/-! ### The graph has no cycle -/

theorem acyclic_lapse (h : s.graph.Acyclic) (hm : Lapse s u) : u.graph.Acyclic := by
  cases hm with
  | quiet hq => cases hq; exact h
  | drop _ => exact h.setEdges_nil _
  | defer _ => exact h
  | mark p => exact h

theorem acyclic_move (h : s.graph.Acyclic) (hs : Coherent s) (hm : Move s u) : u.graph.Acyclic := by
  rcases hm with hm | ⟨n, hq | ⟨c, hc, hm⟩⟩
  · cases hm with
    | lapse hl => exact acyclic_lapse h hl
    | ask t => exact h
    | forget _ _ => exact h
    | request _ hreq => cases hreq <;> exact h
  · exact acyclic_lapse h (.quiet hq)
  · cases hm with
    | stop _ _ => exact h
    | abandon _ _ _ => exact h.setEdges_nil _
    | hold _ _ _ _ => exact h
    | recheck _ _ _ _ => exact h
    | gather _ _ _ hd hp hcyc => exact h.setEdges (hs.sorted_of_prepare hd hp) hcyc
    | cycle _ _ _ hd hp _ =>
        have hes := hs.sorted_of_prepare hd hp
        refine h.mono fun a b hab => ?_
        have hab' : ((s.graph.setEdges c.key _).setEdges c.key []).Adjacent a b := hab
        rw [Graph.adjacent_iff] at hab' ⊢
        obtain ⟨e, he, ht⟩ := hab'
        rw [Graph.edgesOf_setEdges_nil, Graph.edgesOf_setEdges hes] at he
        split at he
        · cases he
        · exact ⟨e, he, ht⟩
    | fail _ _ _ => exact h.setEdges_nil _
    | crash _ _ _ => exact h
    | land _ _ _ => exact h
    | discard _ _ _ => exact h.setEdges_nil _

/-- No run brings a cycle into the graph. -/
theorem Run.acyclic {ok : Action → Prop} (h : Run ok s u) (hs : Coherent s)
    (hacyc : s.graph.Acyclic) (hok : ∀ a, ok a → a.Patient) : u.graph.Acyclic :=
  (h.induction hok (P := fun s => Coherent s ∧ s.graph.Acyclic) ⟨hs, hacyc⟩
    fun _ _ h hm => ⟨h.1.move hm, acyclic_move h.2 h.1 hm⟩).2

/-! ### Edges of flights that have read their source -/

theorem mem_lostWith {p q : String} {b : Option Bool} (h : q ∈ lostWith p lost b) :
    (q = p ∧ b = some true) ∨ (q ∈ lost ∧ (q = p → b = none)) := by
  unfold lostWith at h
  split at h
  · rcases List.mem_cons.1 h with h | h
    · exact .inl ⟨h, rfl⟩
    · obtain ⟨hq, hne⟩ := List.mem_filter.1 h
      exact .inr ⟨hq, fun he => by simp [he] at hne⟩
  · obtain ⟨hq, hne⟩ := List.mem_filter.1 h
    exact .inr ⟨hq, fun he => by simp [he] at hne⟩
  · exact .inr ⟨h, fun _ => rfl⟩

/-- A flight that waits for its targets after it has read its source has not lost its edges. -/
def Written (s : Resolver) (lost : List String) : Prop :=
  ∀ n c a es children, s.flights.call? n = some c →
    c.status = .running (.gathering a es none children) → c.key ∉ lost

theorem Written.shift (h : Written s lost) (hm : Shift s u) : Written u lost := by
  intro m c' a es children hc' hst
  rcases hm.call? hc' with ⟨c, hc, hk, hs, -⟩ | ⟨-, hl⟩
  · exact hk ▸ h m c a es children hc (hs.trans hst)
  · rw [hst] at hl; cases hl

theorem Written.flight (h : Written s lost) (hs : Coherent s) (hun : Unhurried s)
    (hc : s.flights.call? n = some c) (hm : FlightMove s n c u) : Written u (s.lostBy u n lost) := by
  intro m c' a es children hc' hst hmem
  obtain ⟨st, hst', -⟩ := hm.call? hc
  rw [lostBy_eq hc hst'] at hmem
  by_cases hmn : m = n
  · subst hmn
    rw [hst'] at hc'; cases hc'
    dsimp only at hst hmem
    subst hst
    rcases mem_lostWith hmem with ⟨-, hturn⟩ | ⟨hl, hturn⟩
    · obtain ⟨k, st, w, x⟩ := c
      match st with
      | .running .launched => simp [turn] at hturn
      | .running (.loading _) => simp [turn] at hturn
      | .running (.gathering ..) => simp [turn] at hturn
      | .finished _ => simp [turn] at hturn
    · -- the flight has read its source just now, and written its edges
      cases hm.stage hc hst' with
      | gathers hload _ _ _ _ _ =>
          have := hturn rfl
          simp [turn, hload, Phase.loads] at this
  · rw [hm.call?_of_ne hmn] at hc'
    rcases mem_lostWith hmem with ⟨hk, -⟩ | ⟨hl, -⟩
    · exact hmn (hs.wired.eq_of_key hc hm.isRunning (hun.calls n c hc).1 hc'
        (isRunning_of_status hst) (hun.calls m c' hc').1 hk)
    · exact h m c' a es children hc' hst hl

/-- What holds of runs of patient callers. -/
theorem Course.written {ok : Action → Prop} {x : Context} {cat : Catalog} {watch : Option Watch}
    (hcat : cat.Keyed) (h : Course ok (make x cat watch) s lost) (hok : ∀ a, ok a → a.Patient) :
    Unhurried s ∧ Written s lost :=
  h.induction (P := fun s lost => Unhurried s ∧ Written s lost) (.make hcat watch)
    ⟨.make x cat watch, fun n c a es children hc => by cases hc⟩
    (fun _ _ _ _ hP hm => ⟨hP.1.shift hm, hP.2.shift hm⟩)
    (fun v w n lost hs hP hm => by
      refine ⟨hP.1.move (.inr ⟨n, hm⟩), ?_⟩
      rcases hm with hq | ⟨c, hc, hm⟩
      · rw [lostBy_of_flights_eq (by cases hq; rfl)]
        exact hP.2.shift (.lapse (.quiet hq))
      · exact hP.2.flight hs hP.1 hc hm)
    (fun _ _ _ hcan _ _ => by
      obtain ⟨i, hi⟩ := hcan
      exact (hok _ hi).elim)

/-! ### Waiting -/

/-- The flight of a path waits, through a request for one of its targets, for the flight of another
path. -/
def WaitsFor (s : Resolver) (p q : String) : Prop :=
  ∃ n c a es kept children i r m, s.flights.slots.get? p = some n ∧ s.flights.call? n = some c ∧
    c.status = .running (.gathering a es kept children) ∧ i ∈ children ∧
    s.requests[i]? = some r ∧ r.caller = .waiting m ∧ s.flights.slots.get? q = some m

/-- The flight of a path checks a kept result. -/
def Checks (s : Resolver) (p : String) : Prop :=
  ∃ n c a es k children, s.flights.slots.get? p = some n ∧ s.flights.call? n = some c ∧
    c.status = .running (.gathering a es (some k) children)

theorem exists_of_mem_childrenOf {i : RequestId} (h : i ∈ s.childrenOf n) : ∃ f a es kept children,
    s.flights.call? n = some f ∧ f.status = .running (.gathering a es kept children) ∧
      i ∈ children := by
  unfold childrenOf at h
  split at h
  · cases h
  · next f hf =>
      split at h
      · next a es kept children hst => exact ⟨f, a, es, kept, children, hf, hst, h⟩
      · cases h

/-- A flight waits for flights for its targets only. -/
theorem Coherent.mem_targets_of_child (h : Coherent s) {n m : CallId} {c : Flight} {a : Prepared}
    {es : List Edge} {kept : Option Resolved} {children : List RequestId}
    (hc : s.flights.call? n = some c) (hst : c.status = .running (.gathering a es kept children))
    {i : Nat} (hi : i ∈ children) {r : Request} (hr : s.requests[i]? = some r)
    (hw : r.caller = .waiting m) {q : String} (hq : s.flights.slots.get? q = some m) :
    q ∈ Edge.targets es := by
  obtain ⟨r', t, hr', ht, hmem⟩ := h.wired.exists_child hc hst hi
  rw [hr] at hr'; cases hr'
  obtain ⟨c', hc', hallows⟩ := h.wired.waiting i r m hr hw
  obtain ⟨c'', hc'', hkey, -⟩ := h.wired.slot q m hq
  rw [hc'] at hc''; cases hc''
  rw [← hkey, ← hallows t ht]
  exact hmem

/-- A flight that waits for another has an edge to it, unless it checks a kept result that has lost its
edges. -/
theorem WaitsFor.adjacent_or (hs : Coherent s) (hmir : Mirrored s lost) (hwr : Written s lost)
    {p q : String} (h : s.WaitsFor p q) : s.graph.Adjacent p q ∨ (p ∈ lost ∧ s.Checks p) := by
  obtain ⟨n, c, a, es, kept, children, i, r, m, hslot, hc, hst, hi, hr, hw, hq⟩ := h
  have hmem := hs.mem_targets_of_child hc hst hi hr hw hq
  obtain ⟨c', hc', hkey, hgo⟩ := hs.wired.slot p n hslot
  rw [hc] at hc'; cases hc'
  by_cases hl : p ∈ lost
  · cases kept with
    | none => exact absurd (hkey ▸ hl) (hwr n c a es children hc hst)
    | some k => exact .inr ⟨hl, n, c, a, es, k, children, hslot, hc, hst⟩
  · left
    have hedges : s.graph.edgesOf p = es := by
      cases kept with
      | none => rw [← hkey, hmir.fresh n c a es children hc hgo hst, hkey, if_neg hl]
      | some k =>
          obtain ⟨e, he, -, hr, -, hk⟩ := hs.tended.exists_entry hc hgo hst
          rw [hkey] at he
          rw [hmir.entry p e he, if_neg hl, hr, hk]
    rw [Graph.Adjacent, Graph.targetsOf, hedges]
    exact hmem

/-- Steps that go round in a circle are steps of another relation, if each step of the circle is. -/
theorem transGen_of_circle {α : Type} {r t : α → α → Prop} {p : α}
    (h : ∀ a b, ReflTransGen r p a → r a b → ReflTransGen r b p → t a b) (hp : TransGen r p p) :
    TransGen t p p := by
  have key : ∀ b, TransGen r p b → ReflTransGen r b p → TransGen t p b := by
    intro b hb
    induction hb with
    | single hab => exact fun hback => .single (h _ _ .refl hab hback)
    | tail hab hbc ih =>
        exact fun hback => (ih (.head hbc hback)).tail (h _ _ hab.to_reflTransGen hbc hback)
  exact key p hp .refl

/-- Flights that wait for one another in a circle are those of a path that checks a kept result and has
lost its edges. -/
theorem exists_lost_of_waitsFor (hs : Coherent s) (hmir : Mirrored s lost) (hwr : Written s lost)
    (hacyc : s.graph.Acyclic) {p : String} (h : TransGen s.WaitsFor p p) :
    ∃ q ∈ lost, s.Checks q ∧ ReflTransGen s.WaitsFor p q ∧ ReflTransGen s.WaitsFor q p := by
  by_contra hn
  refine hacyc p (transGen_of_circle (fun a b hpa hab hbp => ?_) h)
  rcases hab.adjacent_or hs hmir hwr with hadj | ⟨hl, hchecks⟩
  · exact hadj
  · exact absurd ⟨a, hl, hchecks, hpa, .head hab hbp⟩ hn

/-! ### States in which nothing can go on -/

/-- Whether a flight waits for bytes that its source keeps back. -/
def isHeld (s : Resolver) (c : Flight) : Bool :=
  match c.status with
  | .running (.loading fetched) => !s.isDelivered fetched
  | _ => false

/-- No source keeps its bytes back. -/
def NothingHeld (s : Resolver) : Prop := ∀ c ∈ s.flights.calls, s.isHeld c = false

instance (s : Resolver) : Decidable s.NothingHeld :=
  inferInstanceAs (Decidable (∀ c ∈ s.flights.calls, s.isHeld c = false))

theorem NothingHeld.isDelivered (h : s.NothingHeld) (hc : s.flights.call? n = some c)
    {fetched : Catalog.Fetch} (hst : c.status = .running (.loading fetched)) :
    s.isDelivered fetched = true := by
  have := h c (List.mem_of_getElem? hc)
  simpa [isHeld, hst] using this

/-- A request has no outcome yet. -/
def Pending (s : Resolver) : Prop := ∃ r ∈ s.requests, r.caller.isDone = false

instance (s : Resolver) : Decidable s.Pending :=
  inferInstanceAs (Decidable (∃ r ∈ s.requests, r.caller.isDone = false))

instance (s : Resolver) : Decidable s.Settled := inferInstanceAs (Decidable (s.ready = []))

theorem Settled.requestReady (h : s.Settled) {i : Nat} {r : Request} (hr : s.requests[i]? = some r) :
    s.requestReady r = false := by
  by_contra hne
  have hmem : Step.request i ∈ s.ready := request_mem_ready.2 ⟨r, hr, by simpa using hne⟩
  rw [h] at hmem
  cases hmem

theorem Settled.flightReady (h : s.Settled) (hc : s.flights.call? n = some c) :
    s.flightReady c = false := by
  by_contra hne
  have hmem : Step.flight n ∈ s.ready := flight_mem_ready.2 ⟨c, hc, by simpa using hne⟩
  rw [h] at hmem
  cases hmem

/-- The flight of a path waits for a request that has no outcome. -/
def Stuck (s : Resolver) (p : String) : Prop :=
  ∃ n c a es kept children i r, s.flights.slots.get? p = some n ∧ s.flights.call? n = some c ∧
    c.status = .running (.gathering a es kept children) ∧ i ∈ children ∧
    s.requests[i]? = some r ∧ r.caller.isDone = false

/-- If nothing can go on, a request without an outcome waits for a flight that is stuck. -/
theorem exists_stuck_of_pending (hs : Coherent s) (hun : Unhurried s) (hset : s.Settled)
    (hheld : s.NothingHeld) {i : Nat} {r : Request} (hr : s.requests[i]? = some r)
    (hpend : r.caller.isDone = false) :
    ∃ m p, r.caller = .waiting m ∧ s.flights.slots.get? p = some m ∧ s.Stuck p := by
  have hready := hset.requestReady hr
  unfold Resolver.requestReady at hready
  cases hcaller : r.caller with
  | fresh => rw [hcaller] at hready; cases hready
  | done o => rw [hcaller] at hpend; cases hpend
  | waiting m =>
      rw [hcaller] at hready
      -- the flight it waits for has not ended and cannot go on, so it waits for a request itself
      obtain ⟨c, hc, -⟩ := hs.wired.waiting i r m hr hcaller
      have hgo := (hun.calls m c hc).1
      have hnone : c.outcome? = none := by
        simp only [(hun.requests i r hr).1, Table.answer?, Bool.false_eq_true, if_false, hc] at hready
        simpa using hready
      have hflight := hset.flightReady hc
      unfold Call.outcome? at hnone
      unfold Resolver.flightReady at hflight
      split at hnone
      · next w hst =>
          have hslot := hs.wired.held m c hc (isRunning_of_status hst) hgo
          refine ⟨m, c.key, rfl, hslot, ?_⟩
          rw [hst] at hflight
          cases w with
          | launched => cases hflight
          | loading fetched => simp [hheld.isDelivered hc hst] at hflight
          | gathering a es kept children =>
              obtain ⟨j, hj, ho⟩ := List.all_eq_false.1 hflight
              obtain ⟨r', q, hr', -, -⟩ := hs.wired.exists_child hc hst hj
              refine ⟨m, c, a, es, kept, children, j, r', hslot, hc, hst, hj, hr', ?_⟩
              have ho' : s.outcome? j = none := by simpa [Option.isSome_iff_ne_none] using ho
              unfold outcome? at ho'
              rw [hr'] at ho'
              rw [Caller.isDone, show r'.caller.outcome? = none from ho']
              rfl
      · cases hnone

theorem Stuck.exists_waitsFor (hs : Coherent s) (hun : Unhurried s) (hset : s.Settled)
    (hheld : s.NothingHeld) {p : String} (h : s.Stuck p) : ∃ q, s.Stuck q ∧ s.WaitsFor p q := by
  obtain ⟨n, c, a, es, kept, children, i, r, hslot, hc, hst, hi, hr, hpend⟩ := h
  obtain ⟨m, q, hw, hq, hstuck⟩ := exists_stuck_of_pending hs hun hset hheld hr hpend
  exact ⟨q, hstuck, n, c, a, es, kept, children, i, r, m, hslot, hc, hst, hi, hr, hw, hq⟩

/-- Where each of finitely many leads to another, there is a circle. -/
theorem exists_circle {α : Type} {r : α → α → Prop} {P : α → Prop} {l : List α}
    (hl : ∀ a, P a → a ∈ l) (hstep : ∀ a, P a → ∃ b, P b ∧ r a b) {a : α} (ha : P a) :
    ∃ b, P b ∧ TransGen r b b := by
  -- from one to the next: two places of an endless walk in a finite set are the same
  choose! next hP hr using hstep
  let walk : ℕ → α := fun k => next^[k] a
  have hwalk : ∀ k, P (walk k) := by
    intro k
    induction k with
    | zero => exact ha
    | succ k ih =>
        show P (next^[k + 1] a)
        rw [Function.iterate_succ_apply']
        exact hP _ ih
  have hone : ∀ k, r (walk k) (walk (k + 1)) := fun k => by
    show r (next^[k] a) (next^[k + 1] a)
    rw [Function.iterate_succ_apply']
    exact hr _ (hwalk k)
  have hmany : ∀ k d, TransGen r (walk k) (walk (k + (d + 1))) := by
    intro k d
    induction d with
    | zero => exact .single (hone k)
    | succ d ih => exact ih.tail (hone _)
  have hfin : Finite {b // b ∈ l} := (List.finite_toSet l).to_subtype
  obtain ⟨i, j, hij, he⟩ := Finite.exists_ne_map_eq_of_infinite
    (fun k : ℕ => (⟨walk k, hl _ (hwalk k)⟩ : {b // b ∈ l}))
  have he' : walk i = walk j := congrArg Subtype.val he
  rcases Nat.lt_or_gt_of_ne hij with hlt | hlt
  · obtain ⟨d, rfl⟩ := Nat.exists_eq_add_of_lt hlt
    refine ⟨walk i, hwalk i, ?_⟩
    have := hmany i d
    rwa [← Nat.add_assoc, ← he'] at this
  · obtain ⟨d, rfl⟩ := Nat.exists_eq_add_of_lt hlt
    refine ⟨walk j, hwalk j, ?_⟩
    have := hmany j d
    rwa [← Nat.add_assoc, he'] at this

/-- If nothing can go on and no source keeps its bytes back, requests without an outcome are left just
if flights wait for one another in a circle. -/
theorem pending_iff_exists_circle (hs : Coherent s) (hun : Unhurried s) (hset : s.Settled)
    (hheld : s.NothingHeld) : s.Pending ↔ ∃ p, TransGen s.WaitsFor p p := by
  constructor
  · rintro ⟨r, hmem, hpend⟩
    obtain ⟨i, hr⟩ := List.getElem?_of_mem hmem
    obtain ⟨-, p, -, -, hstuck⟩ := exists_stuck_of_pending hs hun hset hheld hr hpend
    have hslots : ∀ q, s.Stuck q → q ∈ s.flights.slots.keys := by
      rintro q ⟨n, -, -, -, -, -, -, -, hslot, -⟩
      rw [PathMap.mem_keys, PathMap.mem_iff_get?_isSome, hslot]
      rfl
    obtain ⟨q, -, hq⟩ := exists_circle hslots
      (fun q hq => hq.exists_waitsFor hs hun hset hheld) hstuck
    exact ⟨q, hq⟩
  · rintro ⟨p, hp⟩
    obtain ⟨q, ⟨-, -, -, -, -, -, i, r, m, -, -, -, -, hr, hw, -⟩, -⟩ := TransGen.head'_iff.1 hp
    exact ⟨r, List.mem_of_getElem? hr, by rw [hw]; rfl⟩

/-! ### Two flights that wait for each other

After the check of `a` has failed, the source of `b` gives an inclusion of `a`. Then `a` is checked once
more: the flight of `b` finds no way back to `b`, for `a` has lost its edges. -/

namespace Lapse

/-- The asset `a` is asked for a third time. -/
def later : List Action :=
  [.ask (.logical "a"), .step (.request 4), .step (.flight 4), .step (.request 5),
    .step (.flight 5), .step (.request 6)]

/-- The state in which nothing goes on any more, with the paths that have lost their edges. -/
def stuck : Resolver × List String := lapsed.1.play lapsed.2 later

theorem course_stuck : Course Action.Patient (make context catalog none) stuck.1 stuck.2 :=
  course_lapsed.play (by decide +kernel) (by simp [later, Action.Patient])

end Lapse

/-- Flights wait for one another in a circle just if there is in it a path that has lost its edges, whose
kept result is checked. When nothing can go on and no source keeps its bytes back, this is the only cause
for which a request has no outcome. -/
theorem exists_circle_iff_of_course {ok : Action → Prop} {x : Context} {cat : Catalog}
    {watch : Option Watch} (hcat : cat.Keyed) (hok : ∀ a, ok a → a.Patient)
    (h : Course ok (make x cat watch) s lost) :
    ((∃ p, TransGen s.WaitsFor p p) ↔ ∃ p ∈ lost, s.Checks p ∧ TransGen s.WaitsFor p p) ∧
      (s.Settled → s.NothingHeld →
        (s.Pending ↔ ∃ p ∈ lost, s.Checks p ∧ TransGen s.WaitsFor p p)) := by
  have hcoh : Coherent (make x cat watch) := .make hcat watch
  have hs := h.run.coherent hcoh
  obtain ⟨hun, hwr⟩ := h.written hcat hok
  have hacyc := h.run.acyclic hcoh .empty hok
  have hcircle : (∃ p, TransGen s.WaitsFor p p) ↔
      ∃ p ∈ lost, s.Checks p ∧ TransGen s.WaitsFor p p := by
    constructor
    · rintro ⟨p, hp⟩
      obtain ⟨q, hq, hchecks, hpq, hqp⟩ :=
        exists_lost_of_waitsFor hs (h.mirrored hcat) hwr hacyc hp
      exact ⟨q, hq, hchecks, (hp.trans_right hqp).trans_left hpq⟩
    · rintro ⟨p, -, -, hp⟩
      exact ⟨p, hp⟩
  exact ⟨hcircle, fun hset hheld => (pending_iff_exists_circle hs hun hset hheld).trans hcircle⟩

/-- With the two flights that wait for each other: a request has no outcome for the cause named. -/
theorem exists_circle_stuck_iff : Lapse.stuck.1.Pending ↔
    ∃ p ∈ Lapse.stuck.2, Lapse.stuck.1.Checks p ∧ TransGen Lapse.stuck.1.WaitsFor p p :=
  (exists_circle_iff_of_course Lapse.keyed_catalog (fun _ h => h) Lapse.course_stuck).2
    (by decide +kernel) (by decide +kernel)

/-- Flights may wait for one another in a circle, so that requests never have an outcome. -/
theorem exists_course_circle : ∃ s lost,
    Course Action.Patient (make Lapse.context Lapse.catalog none) s lost ∧ s.Settled ∧
      s.NothingHeld ∧ s.Pending ∧ ∃ p, TransGen s.WaitsFor p p := by
  have hset : Lapse.stuck.1.Settled := by decide +kernel
  have hheld : Lapse.stuck.1.NothingHeld := by decide +kernel
  have hpend : Lapse.stuck.1.Pending := by decide +kernel
  have hs := Lapse.course_stuck.run.coherent (.make Lapse.keyed_catalog none)
  obtain ⟨hun, -⟩ := Lapse.course_stuck.written Lapse.keyed_catalog fun _ h => h
  exact ⟨_, _, Lapse.course_stuck, hset, hheld, hpend,
    (pending_iff_exists_circle hs hun hset hheld).1 hpend⟩

end HashedAssets.Resolver
