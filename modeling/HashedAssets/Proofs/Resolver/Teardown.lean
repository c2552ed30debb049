import HashedAssets.Proofs.Resolver.Labels
import HashedAssets.Proofs.Resolver.Orderly

/-!
# What a cancelled caller leaves behind

When a caller gives up, the flight that it was waiting for is asked to stop unless somebody else waits for
it, and then so are the requests of that flight. Until all of this is over nothing else goes on: no flight
begins, and no flight that somebody still waits for comes further.

* `Orderly.cancel`: a caller is cancelled;
* `Tearing`: all that can go on are requests and flights that have been cancelled;
* `Withdraws`, `Tearing.withdraw`: a cancelled request stops waiting;
* `Tearing.abandon`: a flight that was asked to stop ends;
* `Tearing.follows`: a step from there leads there, and keeps the order of requests and flights;
* `Settled.undisturbed`: when nothing can go on, nobody who is left has been cancelled.
-/

namespace HashedAssets.Resolver

open SingleFlight Relation

variable {x : Context} {cat : Catalog} {callers : List RequestId} {s u : Resolver} {m n : CallId}
  {c c' : Flight} {p : String} {i : RequestId} {r r' : Request}

/-! ### Requests that are cancelled -/

/-- Cancelling requests does something to those that have not ended. -/
theorem requests_foldl_cancel (s : Resolver) (is : List RequestId) (j : Nat) :
    (is.foldl (fun s i => (s.cancel i).2) s).requests[j]? = (s.requests[j]?).map fun r =>
      if j ∈ is ∧ r.caller.isDone = false then { r with cancelled := true } else r := by
  induction is generalizing s with
  | nil => simp
  | cons i rest ih =>
      have hone : (s.cancel i).2.requests[j]? = (s.requests[j]?).map fun r =>
          if j = i ∧ r.caller.isDone = false then { r with cancelled := true } else r := by
        unfold cancel
        cases hr : s.requests[i]? with
        | none =>
            dsimp only
            by_cases hji : j = i
            · subst hji; simp [hr]
            · simp [hji]
        | some r =>
            dsimp only
            by_cases hji : j = i
            · subst hji
              cases hdone : r.caller.isDone <;> simp [hr, hdone]
            · cases r.caller.isDone <;> simp [hji, Ne.symm hji]
      rw [List.foldl_cons, ih, hone, Option.map_map]
      congr 1
      funext r
      by_cases hji : j = i <;> cases hdone : r.caller.isDone <;> simp [hji, hdone]

theorem requests_cancel (s : Resolver) (i : RequestId) (j : Nat) :
    (s.cancel i).2.requests[j]? = (s.requests[j]?).map fun r =>
      if j = i ∧ r.caller.isDone = false then { r with cancelled := true } else r := by
  simpa using requests_foldl_cancel s [i] j

/-- When a request stops waiting for a flight, and nobody else waits, the requests of the flight are
cancelled. -/
theorem requests_leave (hc : s.flights.call? n = some c) (j : Nat) :
    (s.leave n).requests[j]? = (s.requests[j]?).map fun r =>
      if (c.deserted.cancelled = true ∧ j ∈ s.childrenOf n) ∧ r.caller.isDone = false then
        { r with cancelled := true }
      else r := by
  have hc' : (s.flights.detach n).call? n = some c.deserted := by
    rw [Table.call?_detach_eq, if_pos rfl, hc]; rfl
  have hchildren : childrenOf { s with flights := s.flights.detach n } n = s.childrenOf n :=
    childrenOf_congr (by
      show ((s.flights.detach n).call? n).map _ = _
      rw [hc', hc]; rfl)
  unfold leave
  dsimp only
  rw [hc']
  dsimp only
  cases hcan : c.deserted.cancelled with
  | false => simp
  | true =>
      rw [if_pos rfl, requests_foldl_cancel, hchildren]
      simp

/-- A caller is cancelled. -/
theorem Orderly.cancel (h : Orderly callers s) (hi : i ∈ callers) : Orderly callers (s.cancel i).2 := by
  obtain ⟨rs, hrs, hh⟩ := cancel_eq s i
  have hreq := requests_cancel s i
  rw [hrs] at hreq ⊢
  have hbefore : ∀ {j : Nat} {r'}, rs[j]? = some r' → ∃ r, s.requests[j]? = some r ∧
      r'.caller = r.caller ∧ (r.cancelled = true → r'.cancelled = true) ∧
      (j ≠ i → r'.cancelled = r.cancelled) := fun {j r'} hr' => by
    obtain ⟨r, hr, rfl⟩ := Option.map_eq_some_iff.1 ((hreq j).symm.trans hr')
    refine ⟨r, hr, ?_, fun hcan => ?_, fun hji => ?_⟩
    · split <;> rfl
    · split
      · rfl
      · exact hcan
    · rw [if_neg fun hand => hji hand.1]
  refine ⟨⟨fun j hj => ?_, h.parted.inner, h.parted.disjoint, fun {j r'} hr' hdone hj => ?_,
    fun {k d j r'} hd hgo hj hr' => ?_, fun {k d j r'} hd hcan hj hr' hdone => ?_⟩,
    ⟨fun {j r'} hr' hst => ?_, h.honest.calls⟩, ⟨h.latest.running, h.latest.begun, h.latest.registered,
      h.latest.edged, h.latest.kept, h.latest.torn⟩⟩
  · exact lt_of_lt_of_eq (h.parted.asked j hj) hh.length_eq.symm
  · obtain ⟨r, hr, hcaller, -⟩ := hbefore hr'
    exact h.parted.parent hr (hcaller ▸ hdone) hj
  · obtain ⟨r, hr, -, -, hsame⟩ := hbefore hr'
    have hji : j ≠ i := by
      rintro rfl
      exact h.parted.inner hj hi
    rw [hsame hji]
    exact h.parted.going hd hgo hj hr
  · obtain ⟨r, hr, hcaller, hmono, -⟩ := hbefore hr'
    exact hmono (h.parted.stopping hd hcan hj hr (hcaller ▸ hdone))
  · obtain ⟨r, hr, hcaller, hmono, -⟩ := hbefore hr'
    exact hmono (h.honest.requests hr (hcaller ▸ hst))

/-! ### While things are torn down -/

/-- All that can go on has been cancelled: a flight that has not been asked to stop cannot go on, whoever
waits, waits for a flight, and that is under way unless it is a cancelled request that waits. -/
structure Tearing (s : Resolver) : Prop where
  blocked : ∀ {n c}, s.flights.call? n = some c → c.isRunning = true → c.cancelled = false →
    s.flightReady c = false
  waiting : ∀ {i : Nat} {r}, s.requests[i]? = some r → r.caller.isDone = false →
    ∃ n, r.caller = .waiting n ∧
      (r.cancelled = false → ∃ c, s.flights.call? n = some c ∧ c.isRunning = true)
  slots : ∀ {p n}, s.flights.slots.get? p = some n → ∃ c, s.flights.call? n = some c ∧ c.isRunning = true

/-- A flight that has not been asked to stop goes on only when its source or its requests let it. -/
theorem flightReady_congr (hgates : u.openGates = s.openGates) (hst : c'.status = c.status)
    (hcan : c'.cancelled = c.cancelled)
    (hchildren : ∀ {a es kept children}, c.status = .running (.gathering a es kept children) →
      ∀ i ∈ children, (u.outcome? i).isSome = true → (s.outcome? i).isSome = true)
    (h : s.flightReady c = false) : u.flightReady c' = false := by
  unfold flightReady at h ⊢
  rw [hst]
  cases hs : c.status with
  | finished o => rfl
  | running w =>
      rw [hs] at h
      cases w with
      | launched => exact h
      | loading fetched =>
          dsimp only at h ⊢
          rw [hcan]
          unfold isDelivered at h ⊢
          rwa [hgates]
      | gathering a es kept children =>
          dsimp only at h ⊢
          rw [← Bool.not_eq_true, List.all_eq_true] at h ⊢
          exact fun hall => h fun i hi => hchildren hs i hi (hall i hi)

/-! ### A cancelled request stops waiting -/

/-- What it does that a cancelled request stops waiting for a flight. The request has ended; and if nobody
else waits for the flight, this is asked to stop and its requests are cancelled. -/
structure Withdraws (s u : Resolver) (i : RequestId) (n : CallId) (c : Flight) : Prop where
  graph : u.graph = s.graph
  entries : u.entries = s.entries
  catalog : u.catalog = s.catalog
  gates : u.openGates = s.openGates
  slots : ∀ {q k}, u.flights.slots.get? q = some k → s.flights.slots.get? q = some k
  length : u.requests.length = s.requests.length
  requests : ∀ {j : Nat} {r'}, u.requests[j]? = some r' → ∃ r, s.requests[j]? = some r ∧
    (r.cancelled = true → r'.cancelled = true) ∧
    (r'.cancelled = true → r.cancelled = true ∨ c.deserted.cancelled = true ∧ j ∈ s.childrenOf n) ∧
    (c.deserted.cancelled = true → j ∈ s.childrenOf n → r'.caller.isDone = false →
      r'.cancelled = true) ∧
    (r'.caller = r.caller ∨ j = i ∧ r'.caller = .done .cancelled ∧ r.cancelled = true)
  calls : ∀ {k d'}, u.flights.call? k = some d' → ∃ d, s.flights.call? k = some d ∧ d'.key = d.key ∧
    d'.status = d.status ∧ (d.cancelled = true → d'.cancelled = true) ∧
    (d'.cancelled = true → d.cancelled = true ∨ k = n ∧ c.deserted.cancelled = true)
  remain : ∀ {k d}, s.flights.call? k = some d → ∃ d', u.flights.call? k = some d' ∧
    d'.key = d.key ∧ d'.status = d.status ∧ (k = n → d' = c.deserted)

/-- What was not cancelled after a change that takes no cancellation back was not before. -/
theorem eq_false_of_imp {a b : Bool} (h : a = true → b = true) (hb : b = false) : a = false := by
  rw [← Bool.not_eq_true]
  exact fun ha => Bool.false_ne_true (hb.symm.trans (h ha))

section Leave

variable (hr : s.requests[i]? = some r) (hcan : r.cancelled = true)
  (hc : s.flights.call? n = some c)

include hr hcan hc in
theorem requests_leave_setCaller {j : Nat} {r' : Request}
    (hr' : ((s.leave n).setCaller i (.done .cancelled)).requests[j]? = some r') :
    ∃ r, s.requests[j]? = some r ∧ (r.cancelled = true → r'.cancelled = true) ∧
      (r'.cancelled = true → r.cancelled = true ∨ c.deserted.cancelled = true ∧ j ∈ s.childrenOf n) ∧
      (c.deserted.cancelled = true → j ∈ s.childrenOf n → r'.caller.isDone = false →
        r'.cancelled = true) ∧
      (r'.caller = r.caller ∨ j = i ∧ r'.caller = .done .cancelled ∧ r.cancelled = true) := by
  rw [getElem?_setCaller, requests_leave hc] at hr'
  split at hr'
  · next hji =>
      subst hji
      rw [hr] at hr'
      obtain rfl := Option.some.inj hr'.symm
      refine ⟨r, hr, fun _ => ?_, fun _ => .inl hcan, fun _ _ hdone => (by cases hdone), .inr ⟨rfl, rfl, hcan⟩⟩
      dsimp only
      split
      · rfl
      · exact hcan
  · obtain ⟨r₀, hr₀, rfl⟩ := Option.map_eq_some_iff.1 hr'
    refine ⟨r₀, hr₀, fun hcan₀ => ?_, fun hcan' => ?_, fun hd hj hdone => ?_, .inl ?_⟩
    · split
      · rfl
      · exact hcan₀
    · split at hcan'
      · next hand => exact .inr hand.1
      · exact .inl hcan'
    · split at hdone
      · next hand => rw [if_pos hand]
      · next hand => exact absurd ⟨⟨hd, hj⟩, hdone⟩ hand
    · split <;> rfl

include hr hcan hc in
theorem withdraws_leave : Withdraws s ((s.leave n).setCaller i (.done .cancelled)) i n c := by
  have hreq := @requests_leave_setCaller s n c i r hr hcan hc
  obtain ⟨rs, hleave, hh, -⟩ := leave_eq s n
  rw [hleave] at hreq ⊢
  refine ⟨rfl, rfl, rfl, rfl, Table.slots_of_detach, (List.length_modify _ _ _).trans hh.length_eq, hreq,
    fun {k d'} hd' => ?_, fun {k d} hd => ?_⟩
  · rcases Table.call?_detach_cases hc hd' with ⟨rfl, rfl⟩ | ⟨-, hd⟩
    · exact ⟨c, hc, rfl, rfl, fun hcan => by simp [Call.deserted, hcan], fun hcan => .inr ⟨rfl, hcan⟩⟩
    · exact ⟨d', hd, rfl, rfl, id, .inl⟩
  · show ∃ d', (s.flights.detach n).call? k = some d' ∧ _
    rw [Table.call?_detach_eq]
    split
    · next hk =>
        subst hk
        obtain rfl : c = d := Option.some.inj (hc.symm.trans hd)
        exact ⟨c.deserted, by rw [hd]; rfl, rfl, rfl, fun _ => rfl⟩
    · next hk => exact ⟨d, hd, rfl, rfl, fun h => absurd h hk⟩

end Leave

namespace Withdraws

theorem childrenOf (h : Withdraws s u i n c) (k : CallId) : u.childrenOf k = s.childrenOf k := by
  refine childrenOf_congr ?_
  cases hd : s.flights.call? k with
  | some d =>
      obtain ⟨d', hd', -, hst, -⟩ := h.remain hd
      rw [hd', Option.map_some, Option.map_some, hst]
  | none =>
      cases hd' : u.flights.call? k with
      | none => rfl
      | some d' =>
          obtain ⟨d, hd₀, -⟩ := h.calls hd'
          rw [hd] at hd₀
          cases hd₀

theorem last (h : Withdraws s u i n c) {q : String} {k : CallId} : u.Last q k ↔ s.Last q k := by
  constructor
  · intro hlast l d hd hk
    obtain ⟨d', hd', hkey, -⟩ := h.remain hd
    exact hlast l d' hd' (hkey.trans hk)
  · intro hlast
    exact hlast.congr fun hc' => by
      obtain ⟨d, hd, hk, -⟩ := h.calls hc'
      exact ⟨d, hd, hk⟩

theorem parted (h : Withdraws s u i n c) (hp : Parted callers s) : Parted callers u where
  asked j hj := lt_of_lt_of_eq (hp.asked j hj) h.length.symm
  inner hj := hp.inner (h.childrenOf _ ▸ hj)
  disjoint hj hj' := hp.disjoint (h.childrenOf _ ▸ hj) (h.childrenOf _ ▸ hj')
  parent {j r'} hr' hdone hj := by
    obtain ⟨r₀, hr₀, -, -, -, hcaller | ⟨-, hcaller, -⟩⟩ := h.requests hr'
    · obtain ⟨k, hk⟩ := hp.parent hr₀ (hcaller ▸ hdone) hj
      exact ⟨k, (h.childrenOf k).symm ▸ hk⟩
    · rw [hcaller] at hdone; cases hdone
  going {k d' j r'} hd' hgo hj hr' := by
    obtain ⟨d, hd, -, -, hmono, -⟩ := h.calls hd'
    obtain ⟨r₀, hr₀, -, hnew, -⟩ := h.requests hr'
    have hj' : j ∈ s.childrenOf k := h.childrenOf k ▸ hj
    rw [← Bool.not_eq_true]
    intro hcan
    rcases hnew hcan with hcan₀ | ⟨hdes, hjn⟩
    · rw [hp.going hd (eq_false_of_imp hmono hgo) hj' hr₀] at hcan₀
      cases hcan₀
    · obtain ⟨d'', hd'', -, -, hself⟩ := h.remain hd
      obtain rfl : d' = d'' := Option.some.inj (hd'.symm.trans hd'')
      rw [hself (hp.disjoint hj' hjn), hdes] at hgo
      cases hgo
  stopping {k d' j r'} hd' hcan hj hr' hdone := by
    obtain ⟨d, hd, -, -, -, hnew⟩ := h.calls hd'
    obtain ⟨r₀, hr₀, hmono, -, hsil, hcaller⟩ := h.requests hr'
    have hj' : j ∈ s.childrenOf k := h.childrenOf k ▸ hj
    rcases hnew hcan with hcan₀ | ⟨rfl, hdes⟩
    · rcases hcaller with hcaller | ⟨-, hcaller, -⟩
      · exact hmono (hp.stopping hd hcan₀ hj' hr₀ (hcaller ▸ hdone))
      · rw [hcaller] at hdone; cases hdone
    · exact hsil hdes hj' hdone

/-- Only a flight under way is asked to stop. -/
theorem honest (h : Withdraws s u i n c) (hh : Honest s) (hc : s.flights.call? n = some c)
    (hgo : c.cancelled = false) : Honest u where
  requests hr' hst := by
    obtain ⟨r₀, hr₀, hmono, -, -, hcaller | ⟨-, -, hcan₀⟩⟩ := h.requests hr'
    · exact hmono (hh.requests hr₀ (hcaller ▸ hst))
    · exact hmono hcan₀
  calls {k d' o} hd' hst := by
    obtain ⟨d, hd, -, hst', hmono, hnew⟩ := h.calls hd'
    have hiff := hh.calls hd (hst'.symm.trans hst)
    refine ⟨fun hcancelled => hmono (hiff.1 hcancelled), fun hcan => ?_⟩
    rcases hnew hcan with hcan₀ | ⟨rfl, hdes⟩
    · exact hiff.2 hcan₀
    · obtain rfl : c = d := Option.some.inj (hc.symm.trans hd)
      rw [Call.deserted, hgo, Bool.false_or, Bool.and_eq_true] at hdes
      exact absurd (hst'.symm.trans hst) (not_finished_of_isRunning hdes.2 _)

theorem latest (h : Withdraws s u i n c) (hl : Latest s) (hc : s.flights.call? n = some c)
    (hbegun : c.deserted.cancelled = true → c.status ≠ .running .launched) : Latest u where
  running hd' hrun := by
    obtain ⟨d, hd, hkey, hst, -⟩ := h.calls hd'
    rw [hkey]
    exact h.last.2 (hl.running hd ((isRunning_congr hst).symm.trans hrun))
  begun hd' hcan := by
    obtain ⟨d, hd, -, hst, -, hnew⟩ := h.calls hd'
    rw [hst]
    rcases hnew hcan with hcan₀ | ⟨rfl, hdes⟩
    · exact hl.begun hd hcan₀
    · obtain rfl : c = d := Option.some.inj (hc.symm.trans hd)
      exact hbegun hdes
  registered hd' := by
    obtain ⟨d, hd, hkey, -⟩ := h.calls hd'
    rw [hkey, h.catalog]
    exact hl.registered hd
  edged hd' hgo hst := by
    obtain ⟨d, hd, hkey, hst', hmono, -⟩ := h.calls hd'
    rw [hkey, h.graph]
    exact hl.edged hd (eq_false_of_imp hmono hgo) (hst'.symm.trans hst)
  kept he := by
    rw [h.entries] at he
    obtain ⟨k, d, hd, hk, hst, hlast⟩ := hl.kept he
    obtain ⟨d', hd', hkey, hst', -⟩ := h.remain hd
    exact ⟨k, d', hd', hkey.trans hk, hst'.trans hst, h.last.2 hlast⟩
  torn hd' hst hlast := by
    obtain ⟨d, hd, hkey, hst', -⟩ := h.calls hd'
    rw [hkey] at hlast ⊢
    rw [h.graph]
    exact hl.torn hd (hst'.symm.trans hst) (h.last.1 hlast)

theorem tearing (h : Withdraws s u i n c) (hp : Parted callers s) (ht : Tearing s) : Tearing u where
  blocked {k d'} hd' hrun hgo := by
    obtain ⟨d, hd, -, hst, hmono, -⟩ := h.calls hd'
    have hgo₀ := eq_false_of_imp hmono hgo
    refine flightReady_congr h.gates hst (hgo.trans hgo₀.symm) (fun {a es kept children} hga j hj hsome => ?_)
      (ht.blocked hd ((isRunning_congr hst).symm.trans hrun) hgo₀)
    -- the request that has ended is none of a flight that goes on
    obtain ⟨o, ho⟩ := Option.isSome_iff_exists.1 hsome
    obtain ⟨r', hr', hdone⟩ := outcome?_eq_some_iff.1 ho
    obtain ⟨r₀, hr₀, -, -, -, hcaller | ⟨rfl, -, hcan₀⟩⟩ := h.requests hr'
    · exact (isSome_outcome?_iff hr₀).2 (by rw [← hcaller, hdone]; rfl)
    · rw [hp.going hd hgo₀ (by rwa [childrenOf_of_gathering hd hga]) hr₀] at hcan₀
      cases hcan₀
  waiting {j r'} hr' hdone := by
    obtain ⟨r₀, hr₀, hmono, -, -, hcaller | ⟨-, hcaller, -⟩⟩ := h.requests hr'
    · obtain ⟨k, hk, hgoing⟩ := ht.waiting hr₀ (hcaller ▸ hdone)
      refine ⟨k, hcaller.trans hk, fun hgo => ?_⟩
      obtain ⟨d, hd, hrun⟩ := hgoing (eq_false_of_imp hmono hgo)
      obtain ⟨d', hd', -, hst, -⟩ := h.remain hd
      exact ⟨d', hd', (isRunning_congr hst).trans hrun⟩
    · rw [hcaller] at hdone; cases hdone
  slots hq := by
    obtain ⟨d, hd, hrun⟩ := ht.slots (h.slots hq)
    obtain ⟨d', hd', -, hst, -⟩ := h.remain hd
    exact ⟨d', hd', (isRunning_congr hst).trans hrun⟩

end Withdraws

/-- A cancelled request that waits for a flight stops waiting. A flight for which nobody waits any more has
begun: one that has not could go on. -/
theorem Tearing.withdraw (h : Tearing s) (ho : Orderly callers s) (hf : Founded x cat s)
    (hr : s.requests[i]? = some r) (hw : r.caller = .waiting n) (hcan : r.cancelled = true)
    (hc : s.flights.call? n = some c) :
    Orderly callers ((s.leave n).setCaller i (.done .cancelled)) ∧
      Tearing ((s.leave n).setCaller i (.done .cancelled)) := by
  have hgo : c.cancelled = false := hf.going_of_waiting hr hw hc
  have hbegun : c.status ≠ .running .launched := fun hst => by
    have hready := h.blocked hc (isRunning_of_status hst) hgo
    rw [flightReady, hst] at hready
    cases hready
  have hu := withdraws_leave hr hcan hc
  exact ⟨⟨hu.parted ho.parted, hu.honest ho.honest hc hgo, hu.latest ho.latest hc fun _ => hbegun⟩,
    hu.tearing ho.parted h⟩

/-! ### A flight that was asked to stop ends -/

section Abandon

variable {k : CallId} (hc : s.flights.call? n = some c)

theorem call?_abandon_of_ne (hk : k ≠ n) : (s.abandon n p).flights.call? k = s.flights.call? k := by
  show (s.flights.finish n _).call? k = _
  rw [Table.call?_finish, if_neg hk]

theorem edgesOf_abandon (q : String) :
    (s.abandon n p).graph.edgesOf q = if q = p then [] else s.graph.edgesOf q :=
  Graph.edgesOf_setEdges_nil p q

include hc

theorem call?_abandon_self :
    (s.abandon n p).flights.call? n = some { c with status := .finished .cancelled } :=
  call?_finish_self hc _

theorem exists_call?_of_abandon (hd : (s.abandon n p).flights.call? k = some c') :
    ∃ d, s.flights.call? k = some d ∧ c'.key = d.key := by
  by_cases hk : k = n
  · subst hk
    obtain rfl := Option.some.inj ((call?_abandon_self hc).symm.trans hd)
    exact ⟨c, hc, rfl⟩
  · exact ⟨c', call?_abandon_of_ne hk ▸ hd, rfl⟩

/-- A flight that is under way afterwards is another, and was. -/
theorem call?_of_abandon (hd : (s.abandon n p).flights.call? k = some c') (hr : c'.isRunning = true) :
    k ≠ n ∧ s.flights.call? k = some c' := by
  have hk : k ≠ n := by
    rintro rfl
    obtain rfl := Option.some.inj ((call?_abandon_self hc).symm.trans hd)
    cases hr
  exact ⟨hk, call?_abandon_of_ne hk ▸ hd⟩

theorem mem_childrenOf_abandon : i ∈ (s.abandon n p).childrenOf k ↔ k ≠ n ∧ i ∈ s.childrenOf k := by
  by_cases hk : k = n
  · subst hk
    unfold childrenOf
    rw [call?_abandon_self hc]
    simp
  · have heq : (s.abandon n p).childrenOf k = s.childrenOf k :=
      childrenOf_congr (by rw [call?_abandon_of_ne hk])
    simp [heq, hk]

theorem last_abandon {q : String} : (s.abandon n p).Last q k ↔ s.Last q k := by
  constructor
  · intro hlast l d hd hk
    by_cases hl : l = n
    · subst hl
      obtain rfl : c = d := Option.some.inj (hc.symm.trans hd)
      exact hlast l _ (call?_abandon_self hc) hk
    · exact hlast l d ((call?_abandon_of_ne hl).trans hd) hk
  · exact fun hlast => hlast.congr (exists_call?_of_abandon hc)

theorem Parted.abandon (h : Parted callers s)
    (hdone : ∀ {j : Nat} {r}, j ∈ s.childrenOf n → s.requests[j]? = some r → r.caller.isDone = true) :
    Parted callers (s.abandon n p) where
  asked := h.asked
  inner hj := h.inner ((mem_childrenOf_abandon hc).1 hj).2
  disjoint hj hj' := h.disjoint ((mem_childrenOf_abandon hc).1 hj).2 ((mem_childrenOf_abandon hc).1 hj').2
  parent {j r} hr hun hj := by
    obtain ⟨k, hk⟩ := h.parent hr hun hj
    refine ⟨k, (mem_childrenOf_abandon hc).2 ⟨?_, hk⟩⟩
    rintro rfl
    have hr' : s.requests[j]? = some r := hr
    rw [hdone hk hr'] at hun
    cases hun
  going hd hgo hj hr := by
    obtain ⟨hk, hj'⟩ := (mem_childrenOf_abandon hc).1 hj
    exact h.going (call?_abandon_of_ne hk ▸ hd) hgo hj' hr
  stopping hd hcan hj hr hun := by
    obtain ⟨hk, hj'⟩ := (mem_childrenOf_abandon hc).1 hj
    exact h.stopping (call?_abandon_of_ne hk ▸ hd) hcan hj' hr hun

theorem Honest.abandon (h : Honest s) (hcan : c.cancelled = true) : Honest (s.abandon n p) where
  requests := h.requests
  calls {k d o} hd hst := by
    by_cases hk : k = n
    · subst hk
      obtain rfl := Option.some.inj ((call?_abandon_self hc).symm.trans hd)
      cases hst
      exact iff_of_true rfl hcan
    · exact h.calls (call?_abandon_of_ne hk ▸ hd) hst

theorem Latest.abandon (h : Latest s) (hrun : c.isRunning = true) : Latest (s.abandon n c.key) where
  running hd hr := (last_abandon hc).2 (h.running (call?_of_abandon hc hd hr).2 hr)
  begun {k d} hd hcan := by
    by_cases hk : k = n
    · subst hk
      obtain rfl := Option.some.inj ((call?_abandon_self hc).symm.trans hd)
      simp
    · exact h.begun (call?_abandon_of_ne hk ▸ hd) hcan
  registered hd := by
    obtain ⟨d₀, hd₀, hkey⟩ := exists_call?_of_abandon hc hd
    rw [hkey]
    exact h.registered hd₀
  edged {k d a es kept children} hd hgo hst := by
    obtain ⟨hk, hd'⟩ := call?_of_abandon hc hd (isRunning_of_status hst)
    -- it is for another path, for both are under way
    have hkey : d.key ≠ c.key := fun hkey =>
      hk (h.eq_of_key hc hrun hd' (isRunning_of_status hst) hkey)
    rw [edgesOf_abandon, if_neg hkey]
    exact h.edged hd' hgo hst
  kept he := by
    obtain ⟨k, d, hd, hk, hst, hlast⟩ := h.kept he
    have hkn : k ≠ n := by
      rintro rfl
      obtain rfl : c = d := Option.some.inj (hc.symm.trans hd)
      exact not_finished_of_isRunning hrun _ hst
    exact ⟨k, d, (call?_abandon_of_ne hkn).trans hd, hk, hst, (last_abandon hc).2 hlast⟩
  torn {k d} hd hst hlast := by
    rw [edgesOf_abandon]
    split
    · rfl
    · next hkey =>
        have hk : k ≠ n := by
          rintro rfl
          obtain rfl := Option.some.inj ((call?_abandon_self hc).symm.trans hd)
          exact hkey rfl
        exact h.torn (call?_abandon_of_ne hk ▸ hd) hst ((last_abandon hc).1 hlast)

theorem Tearing.blocked_abandon (h : Tearing s) (hd : (s.abandon n p).flights.call? k = some c')
    (hr : c'.isRunning = true) (hgo : c'.cancelled = false) :
    (s.abandon n p).flightReady c' = false :=
  flightReady_congr (s := s) (c := c') rfl rfl rfl (fun _ _ _ => id)
    (h.blocked (call?_of_abandon hc hd hr).2 hr hgo)

/-- A flight that has been asked to stop ends, once its requests have. -/
theorem Tearing.abandon (h : Tearing s) (ho : Orderly callers s) (hf : Founded x cat s)
    (hrun : c.isRunning = true) (hcan : c.cancelled = true)
    (hdone : ∀ {j : Nat} {r}, j ∈ s.childrenOf n → s.requests[j]? = some r → r.caller.isDone = true) :
    Orderly callers (s.abandon n c.key) ∧ Tearing (s.abandon n c.key) := by
  -- nobody waits for it, and no slot holds it
  have hkept : ∀ {k d}, s.flights.call? k = some d → d.isRunning = true → d.cancelled = false →
      ∃ d, (s.abandon n c.key).flights.call? k = some d ∧ d.isRunning = true := fun {k d} hd hr hgo => by
    refine ⟨d, (call?_abandon_of_ne ?_).trans hd, hr⟩
    rintro rfl
    obtain rfl : c = d := Option.some.inj (hc.symm.trans hd)
    exact Bool.false_ne_true (hgo.symm.trans hcan)
  refine ⟨⟨ho.parted.abandon hc hdone, ho.honest.abandon hc hcan, ho.latest.abandon hc hrun⟩,
    h.blocked_abandon hc, fun {j r} hr hun => ?_, fun {q k} hq => ?_⟩
  · obtain ⟨k, hk, hruns⟩ := h.waiting hr hun
    refine ⟨k, hk, fun hgo => ?_⟩
    obtain ⟨d, hd, hrun'⟩ := hruns hgo
    exact hkept hd hrun' (hf.going_of_waiting hr hk hd)
  · obtain ⟨d, hd, hrun'⟩ := h.slots hq
    obtain ⟨d', hd', -, hgo⟩ := hf.coherent.wired.slot q k hq
    obtain rfl : d = d' := Option.some.inj (hd.symm.trans hd')
    exact hkept hd hrun' hgo

end Abandon

/-! ### One step -/

theorem Tearing.not_forget_ready (h : Tearing s) : Step.forget n ∉ s.ready := fun hy => by
  obtain ⟨hvalue, hover⟩ := List.mem_filter.1 (forget_mem_ready.1 hy)
  obtain ⟨⟨q, k⟩, hmem, rfl⟩ := List.mem_map.1 hvalue
  obtain ⟨c, hc, hrun⟩ := h.slots (PathMap.get?_eq_some_iff.2 hmem)
  simp [hc, hrun] at hover

/-- A request that can go on waits and has been cancelled. -/
theorem Tearing.waiting_of_ready (h : Tearing s) (hr : s.requests[i]? = some r)
    (hready : s.requestReady r = true) : r.cancelled = true ∧ ∃ n, r.caller = .waiting n := by
  have hundone : r.caller.isDone = false := by
    cases hcaller : r.caller with
    | done o => rw [requestReady, hcaller] at hready; cases hready
    | _ => rfl
  obtain ⟨n, hw, hgoing⟩ := h.waiting hr hundone
  refine ⟨?_, n, hw⟩
  rw [← Bool.not_eq_false]
  intro hgo
  obtain ⟨c, hc, hrun⟩ := hgoing hgo
  simp [requestReady, hw, Table.answer?, hgo, hc, Call.outcome?_eq_none_iff.2 hrun] at hready

theorem runRequest_of_cancelled (hr : s.requests[i]? = some r) (hw : r.caller = .waiting n)
    (hcan : r.cancelled = true) : s.runRequest i = (s.leave n).setCaller i (.done .cancelled) := by
  unfold runRequest takeAnswer
  simp [hr, hw, Table.answer?, hcan]

/-- A flight that can go on is under way and has been asked to stop. -/
theorem Tearing.cancelled_of_ready (h : Tearing s) (hc : s.flights.call? n = some c)
    (hready : s.flightReady c = true) : c.isRunning = true ∧ c.cancelled = true := by
  have hrun : c.isRunning = true := by
    cases hst : c.status with
    | running w => exact isRunning_of_status hst
    | finished o => rw [flightReady, hst] at hready; cases hready
  refine ⟨hrun, ?_⟩
  rw [← Bool.not_eq_false]
  intro hgo
  rw [h.blocked hc hrun hgo] at hready
  cases hready

/-- A flight that has begun and was asked to stop ends when it can go on. -/
theorem runFlight_of_cancelled (hc : s.flights.call? n = some c) (hrun : c.isRunning = true)
    (hcan : c.cancelled = true) (hbegun : c.status ≠ .running .launched)
    (hready : s.flightReady c = true) : s.runFlight n = s.abandon n c.key := by
  unfold runFlight
  rw [hc]
  dsimp only
  cases hst : c.status with
  | finished o => exact absurd hst (not_finished_of_isRunning hrun o)
  | running w => cases w with
    | launched => exact absurd hst hbegun
    | loading fetched => simp [hcan]
    | gathering a es kept children =>
        rw [flightReady, hst] at hready
        dsimp only at hready ⊢
        rw [hready, hcan]
        rfl

theorem isDone_of_flightReady (hc : s.flights.call? n = some c) (hready : s.flightReady c = true)
    (hi : i ∈ s.childrenOf n) (hr : s.requests[i]? = some r) : r.caller.isDone = true := by
  obtain ⟨d, a, es, kept, children, hd, hst, hmem⟩ := exists_of_mem_childrenOf hi
  obtain rfl : c = d := Option.some.inj (hc.symm.trans hd)
  rw [flightReady, hst] at hready
  exact (isSome_outcome?_iff hr).1 (List.all_eq_true.1 hready i hmem)

/-- What can go on has been cancelled, and when it goes on the order stays. -/
theorem Tearing.follows (h : Tearing s) (ho : Orderly callers s) (hf : Founded x cat s)
    (hm : Follows u s) : Orderly callers u ∧ Tearing u := by
  obtain ⟨y, hy, rfl⟩ := hm
  cases y with
  | forget n => exact absurd hy h.not_forget_ready
  | request i =>
      obtain ⟨r, hr, hready⟩ := request_mem_ready.1 hy
      obtain ⟨hcan, n, hw⟩ := h.waiting_of_ready hr hready
      obtain ⟨c, hc, -⟩ := hf.coherent.wired.waiting i r n hr hw
      show Orderly callers (s.runRequest i) ∧ Tearing (s.runRequest i)
      rw [runRequest_of_cancelled hr hw hcan]
      exact h.withdraw ho hf hr hw hcan hc
  | flight n =>
      obtain ⟨c, hc, hready⟩ := flight_mem_ready.1 hy
      obtain ⟨hrun, hcan⟩ := h.cancelled_of_ready hc hready
      show Orderly callers (s.runFlight n) ∧ Tearing (s.runFlight n)
      rw [runFlight_of_cancelled hc hrun hcan (ho.latest.begun hc hcan) hready]
      exact h.abandon hc ho hf hrun hcan (isDone_of_flightReady hc hready)

/-! ### When all is over -/

/-- When nothing can go on, nobody who is left has been cancelled. -/
theorem Settled.undisturbed (h : s.Settled) (hs : Coherent s) (hp : Parted callers s) : Undisturbed s := by
  have hrequests : ∀ {i : Nat} {r}, s.requests[i]? = some r → r.caller.isDone = false →
      r.cancelled = false := fun {i r} hr hdone => by
    have hready := h.requestReady hr
    rw [← Bool.not_eq_true]
    intro hcan
    cases hcaller : r.caller with
    | fresh => rw [Resolver.requestReady, hcaller] at hready; cases hready
    | waiting n => simp [Resolver.requestReady, hcaller, Table.answer?, hcan] at hready
    | done o => rw [hcaller] at hdone; cases hdone
  refine ⟨fun {n c} hc hrun => ?_, hrequests⟩
  have hready := h.flightReady hc
  rw [← Bool.not_eq_true]
  intro hcan
  cases hst : c.status with
  | finished o => exact absurd hst (not_finished_of_isRunning hrun o)
  | running w => cases w with
    | launched => rw [Resolver.flightReady, hst] at hready; cases hready
    | loading fetched => simp [Resolver.flightReady, hst, hcan] at hready
    | gathering a es kept children =>
        rw [Resolver.flightReady, hst, ← Bool.not_eq_true, List.all_eq_true] at hready
        refine hready fun i hi => ?_
        obtain ⟨r, q, hr, -⟩ := hs.wired.exists_child hc hst hi
        rw [isSome_outcome?_iff hr, ← Bool.not_eq_false]
        intro hun
        have hcancelled := hp.stopping hc hcan (by rwa [childrenOf_of_gathering hc hst]) hr hun
        rw [hrequests hr hun] at hcancelled
        cases hcancelled

/-- When nothing can go on, a flight in its slot is under way. -/
theorem Settled.isRunning_of_slot (h : s.Settled) (hn : s.flights.slots.get? p = some n)
    (hc : s.flights.call? n = some c) : c.isRunning = true := by
  rw [← Bool.not_eq_false]
  intro hover
  have hmem : Step.forget n ∈ s.ready := forget_mem_ready.2 <| List.mem_filter.2
    ⟨List.mem_map.2 ⟨(p, n), PathMap.get?_eq_some_iff.1 hn, rfl⟩, by simp [hc, hover]⟩
  rw [h] at hmem
  cases hmem

/-- A caller is cancelled when nothing can go on. -/
theorem Settled.tearing (h : s.Settled) (hs : Coherent s) (hu : Undisturbed s) (i : RequestId) :
    Tearing (s.cancel i).2 := by
  obtain ⟨rs, hrs, hh⟩ := cancel_eq s i
  rw [hrs]
  refine ⟨fun {n c} hc _ _ => ?_, fun {j r'} hr' hdone => ?_, fun {p n} hn => ?_⟩
  · refine flightReady_congr (s := s) (c := c) rfl rfl rfl (fun _ j _ hsome => ?_) (h.flightReady hc)
    obtain ⟨o, ho⟩ := Option.isSome_iff_exists.1 hsome
    rw [Hushed.outcome? (s := { s with requests := rs }) hh.symm ho]
    rfl
  · obtain ⟨r, hr, -, hcaller⟩ := hh.exists_eq hr'
    rw [← hcaller] at hdone ⊢
    have hready := h.requestReady hr
    cases hst : r.caller with
    | fresh => rw [Resolver.requestReady, hst] at hready; cases hready
    | done o => rw [hst] at hdone; cases hdone
    | waiting n =>
        refine ⟨n, rfl, fun _ => ?_⟩
        obtain ⟨c, hc, -⟩ := hs.wired.waiting j r n hr hst
        refine ⟨c, hc, ?_⟩
        rw [← Bool.not_eq_false]
        intro hover
        have hsome : (c.outcome?).isSome = true := by
          rw [Option.isSome_iff_ne_none, ne_eq, Call.outcome?_eq_none_iff, hover]
          exact Bool.false_ne_true
        simp [Resolver.requestReady, hst, Table.answer?, hu.requests hr hdone, hc, hsome] at hready
  · obtain ⟨c, hc, -⟩ := hs.wired.slot p n hn
    exact ⟨c, hc, h.isRunning_of_slot hn hc⟩

end HashedAssets.Resolver
