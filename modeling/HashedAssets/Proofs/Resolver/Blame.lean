import HashedAssets.Proofs.Resolver.Answers

/-!
# Failures that come out

When a flight fails, so does the flight that waits for it, up to the request with which all began. So if
that one ends with a result, nothing has failed on the way.

* `Leads`: a request waits, or waited, for another by its flight;
* `Blamed`: every flight has a request that waits for it, and every request but the first one that leads
  to it;
* `Blamed.all_ok`: a run that ends well has gone well.
-/

namespace HashedAssets.Resolver

open SingleFlight Relation

variable {n : CallId} {i₀ i j : RequestId} {s u : Resolver} {c : Flight} {r r' : Request}

/-! ### Who waits for whom -/

/-- A request has ended with a result. -/
def IsOk (s : Resolver) (i : RequestId) : Prop :=
  ∃ r v, s.requests[i]? = some r ∧ r.caller = .done (.result (.ok v))

/-- A request has ended with a failure. -/
def IsError (s : Resolver) (i : RequestId) : Prop :=
  ∃ r f, s.requests[i]? = some r ∧ r.caller = .done (.result (.error f))

/-- A request waits for a flight. -/
def IsWaiting (s : Resolver) (i : RequestId) (n : CallId) : Prop :=
  ∃ r, s.requests[i]? = some r ∧ r.caller = .waiting n

/-- The first request waits for a flight that waits for the second, or that has failed; or it has failed
itself; unless the second has a result. -/
def Leads (s : Resolver) (j i : RequestId) : Prop :=
  s.IsOk i ∨ s.IsError j ∨ ∃ n c, s.IsWaiting j n ∧ s.flights.call? n = some c ∧
    ((∃ a es kept children, c.status = .running (.gathering a es kept children) ∧ i ∈ children) ∨
      ∃ f, c.status = .finished (.result (.error f)))

/-- Requests up to a given number have ended; every flight that has no result has a later request that
waits for it or has failed with it; and every request after that of the number has one before it that
leads to it. -/
structure Blamed (i₀ : RequestId) (s : Resolver) : Prop where
  answered : ∀ (i : Nat) r, i < i₀ → s.requests[i]? = some r → ∃ o, r.caller = .done o
  asked : i₀ ≤ s.requests.length
  origin : ∀ n c, s.flights.call? n = some c → (∃ v, c.status = .finished (.result (.ok v))) ∨
    ∃ i, i₀ ≤ i ∧ (s.IsWaiting i n ∨ s.IsError i)
  parent : ∀ i, i₀ < i → i < s.requests.length → ∃ j, i₀ ≤ j ∧ j < i ∧ s.Leads j i

theorem IsOk.request (h : s.IsOk j) (hr : s.requests[i]? = some r) (hm : RequestMove s i r u) :
    u.IsOk j := by
  obtain ⟨r', v, hr', hd⟩ := h
  obtain ⟨r'', hr'', hd'⟩ := hm.exists_done hr hr' hd
  exact ⟨r'', v, hr'', hd'⟩

theorem IsError.request (h : s.IsError j) (hr : s.requests[i]? = some r) (hm : RequestMove s i r u) :
    u.IsError j := by
  obtain ⟨r', f, hr', hd⟩ := h
  obtain ⟨r'', hr'', hd'⟩ := hm.exists_done hr hr' hd
  exact ⟨r'', f, hr'', hd'⟩

/-- A request goes on to wait for its flight, or the flight has ended with what it ends with. -/
theorem IsWaiting.request (h : s.IsWaiting j n) (hun : Unhurried s) (hr : s.requests[i]? = some r)
    (hm : RequestMove s i r u) : u.IsWaiting j n ∨
      ∃ c a, s.flights.call? n = some c ∧ c.status = .finished (.result a) ∧
        ∀ f, a = .error f → u.IsError j := by
  obtain ⟨r', hr', hw⟩ := h
  by_cases hji : j = i
  · subst hji
    rw [hr] at hr'; cases hr'
    obtain ⟨o, r'', hans, hr'', hd⟩ := hm.of_waiting hr hw
    obtain ⟨c, a, hc, hst, rfl⟩ := hun.answer hr hans
    refine .inr ⟨c, a, hc, hst, fun f hf => ⟨r'', f, hr'', ?_⟩⟩
    rw [hd, hf]
    cases r.target <;> rfl
  · obtain ⟨r'', hr'', hc⟩ := hm.caller_of_ne hji hr'
    exact .inl ⟨r'', hr'', hc.trans hw⟩

theorem Leads.request (h : s.Leads j i) (hun : Unhurried s) {k : RequestId}
    (hr : s.requests[k]? = some r) (hm : RequestMove s k r u) : u.Leads j i := by
  rcases h with h | h | ⟨n, c, hw, hc, hst⟩
  · exact .inl (h.request hr hm)
  · exact .inr (.inl (h.request hr hm))
  · obtain ⟨c', hc', hk, hst'⟩ := (Shift.request hr hm).exists_call? hc
    rcases hw.request hun hr hm with hw | ⟨c₀, a, hc₀, hst₀, hd⟩
    · exact .inr (.inr ⟨n, c', hw, hc', hst' ▸ hst⟩)
    · rw [hc] at hc₀; cases hc₀
      rcases hst with ⟨b, es, kept, children, hst, -⟩ | ⟨f, hst⟩
      · rw [hst] at hst₀; cases hst₀
      · rw [hst] at hst₀; cases hst₀
        exact .inr (.inl (hd f rfl))

theorem Blamed.request (h : Blamed i₀ s) (hun : Unhurried s) (hr : s.requests[i]? = some r)
    (hm : RequestMove s i r u) : Blamed i₀ u where
  answered j r' hj hr' := by
    obtain ⟨r₀, hr₀⟩ : ∃ r₀, s.requests[j]? = some r₀ :=
      ⟨_, List.getElem?_eq_getElem (Nat.lt_of_lt_of_le hj h.asked)⟩
    obtain ⟨o, ho⟩ := h.answered j r₀ hj hr₀
    obtain ⟨r'', hr'', hd⟩ := hm.exists_done hr hr₀ ho
    rw [hr'] at hr''; cases hr''
    exact ⟨o, hd⟩
  asked := hm.length_eq ▸ h.asked
  origin n c hc := by
    rcases (Shift.request hr hm).call? hc with ⟨c₀, hc₀, -, hst, -⟩ | ⟨hn, -⟩
    · rcases h.origin n c₀ hc₀ with ⟨v, hv⟩ | ⟨j, hj, hw | he⟩
      · exact .inl ⟨v, hst ▸ hv⟩
      · rcases hw.request hun hr hm with hw | ⟨c₁, a, hc₁, hst₁, hd⟩
        · exact .inr ⟨j, hj, .inl hw⟩
        · rw [hc₀] at hc₁; cases hc₁
          cases a with
          | ok v => exact .inl ⟨v, hst ▸ hst₁⟩
          | error f => exact .inr ⟨j, hj, .inr (hd f rfl)⟩
      · exact .inr ⟨j, hj, .inr (he.request hr hm)⟩
    · -- a flight that has just begun: the request that has begun it waits for it
      have hi : i₀ ≤ i := by
        by_contra hlt
        obtain ⟨o, ho⟩ := h.answered i r (Nat.not_le.1 hlt) hr
        exact hm.not_done o ho
      exact .inr ⟨i, hi, .inl (hn ▸ (hm.begins (hn ▸ hc)).waits hr)⟩
  parent k hk hlt := by
    obtain ⟨j, hj, hjk, hl⟩ := h.parent k hk (hm.length_eq ▸ hlt)
    exact ⟨j, hj, hjk, hl.request hun hr hm⟩

/-! ### Flights -/

theorem IsOk.flight (h : s.IsOk j) (hm : FlightMove s n c u) : u.IsOk j := by
  obtain ⟨r, v, hr, hd⟩ := h
  exact ⟨r, v, hm.getElem? hr, hd⟩

theorem IsError.flight (h : s.IsError j) (hm : FlightMove s n c u) : u.IsError j := by
  obtain ⟨r, f, hr, hd⟩ := h
  exact ⟨r, f, hm.getElem? hr, hd⟩

theorem IsWaiting.flight {m : CallId} (h : s.IsWaiting j m) (hm : FlightMove s n c u) :
    u.IsWaiting j m := by
  obtain ⟨r, hr, hw⟩ := h
  exact ⟨r, hm.getElem? hr, hw⟩

/-- A flight that waits for a request goes on to fail, unless the request has a result. -/
theorem FlightMove.isOk_or_error (hm : FlightMove s n c u) (hc : s.flights.call? n = some c)
    (hun : Unhurried u) {a : Prepared} {es : List Edge} {kept : Option Resolved}
    {children : List RequestId} (hst : c.status = .running (.gathering a es kept children))
    (hi : i ∈ children) :
    s.IsOk i ∨ ∃ c' f, u.flights.call? n = some c' ∧ c'.status = .finished (.result (.error f)) := by
  obtain ⟨st, hst', hrank, hstage⟩ := hm.exists_stage hc
  rw [hst] at hrank
  obtain ⟨o, rfl⟩ := exists_finished_of_lt hrank
  cases hstage with
  | stopped _ => exact absurd rfl (hun.calls n _ hst').2
  | failed _ => exact .inr ⟨_, _, hst', rfl⟩
  | cyclic _ _ _ _ _ => exact .inr ⟨_, _, hst', rfl⟩
  | landed _ hl _ =>
      left
      obtain ⟨a', es', kept', children', m', hst₀, hans⟩ := hl.collect
      rw [hst] at hst₀; cases hst₀
      obtain ⟨v, ho, -⟩ := (collect_eq_ok hans).1 i hi
      obtain ⟨r, hr, hd⟩ := outcome?_eq_some_iff.1 ho
      exact ⟨r, v, hr, hd⟩

theorem Leads.flight (h : s.Leads j i) (hc : s.flights.call? n = some c) (hun : Unhurried u)
    (hm : FlightMove s n c u) : u.Leads j i := by
  rcases h with h | h | ⟨m, c', hw, hc', hst⟩
  · exact .inl (h.flight hm)
  · exact .inr (.inl (h.flight hm))
  · by_cases hmn : m = n
    · subst hmn
      rw [hc] at hc'; cases hc'
      rcases hst with ⟨a, es, kept, children, hst, hi⟩ | ⟨f, hst⟩
      · rcases hm.isOk_or_error hc hun hst hi with h | ⟨c'', f, hc'', hst''⟩
        · exact .inl (h.flight hm)
        · exact .inr (.inr ⟨m, c'', hw.flight hm, hc'', .inr ⟨f, hst''⟩⟩)
      · exact absurd hst (not_finished_of_isRunning hm.isRunning _)
    · exact .inr (.inr ⟨m, c', hw.flight hm, by rw [hm.call?_of_ne hmn]; exact hc', hst⟩)

theorem Blamed.flight (h : Blamed i₀ s) (hc : s.flights.call? n = some c) (hun : Unhurried u)
    (hm : FlightMove s n c u) : Blamed i₀ u := by
  have horigin : ∃ j, i₀ ≤ j ∧ (s.IsWaiting j n ∨ s.IsError j) :=
    (h.origin n c hc).resolve_left fun ⟨v, hv⟩ => not_finished_of_isRunning hm.isRunning _ hv
  refine ⟨fun i r hi hr => ?_, Nat.le_trans h.asked hm.length_le, fun m c' hc' => ?_, fun i hi hlt => ?_⟩
  · rcases hm.request_cases hr with hr | ⟨hge, -⟩
    · exact h.answered i r hi hr
    · exact absurd (Nat.lt_of_lt_of_le hi h.asked) (Nat.not_lt.2 hge)
  · have hkeep : (∃ j, i₀ ≤ j ∧ (s.IsWaiting j m ∨ s.IsError j)) →
        ∃ j, i₀ ≤ j ∧ (u.IsWaiting j m ∨ u.IsError j) := by
      rintro ⟨j, hj, hor⟩
      exact ⟨j, hj, hor.imp (·.flight hm) (·.flight hm)⟩
    rcases hm.call?_cases hc hc' with ⟨rfl, -⟩ | ⟨-, hold⟩
    · exact .inr (hkeep horigin)
    · exact (h.origin m c' hold).imp_right hkeep
  · rcases Nat.lt_or_ge i s.requests.length with hold | hnew
    · obtain ⟨j, hj, hji, hl⟩ := h.parent i hi hold
      exact ⟨j, hj, hji, hl.flight hc hun hm⟩
    · -- a request that the flight has just made: that for the flight leads to it
      have hlen : u.requests.length ≠ s.requests.length :=
        Nat.ne_of_gt (Nat.lt_of_le_of_lt hnew hlt)
      obtain ⟨c', a, es, kept, children, hc', hst⟩ := hm.exists_gathering hc hlen
      have hmem : i ∈ children := (hm.children hc hc' hst i).2 ⟨hnew, hlt⟩
      obtain ⟨j, hj, hor⟩ := horigin
      have hlt' : j < s.requests.length := by
        rcases hor with ⟨r, hr, -⟩ | ⟨r, f, hr, -⟩ <;> exact (List.getElem?_eq_some_iff.1 hr).1
      refine ⟨j, hj, Nat.lt_of_lt_of_le hlt' hnew, ?_⟩
      rcases hor with hw | he
      · exact .inr (.inr ⟨n, c', hw.flight hm, hc', .inl ⟨a, es, kept, children, hst, hmem⟩⟩)
      · exact .inr (.inl (he.flight hm))

/-! ### Runs -/

theorem Blamed.advance (h : Blamed i₀ s) (hun : Unhurried s) (hm : Advance s u) : Blamed i₀ u := by
  have hun' := hun.move hm.move
  cases hm with
  | calm hm =>
      cases hm with
      | quiet hq => cases hq; exact ⟨h.answered, h.asked, h.origin, h.parent⟩
      | request hr hm => exact h.request hun hr hm
  | forget _ _ =>
      refine ⟨h.answered, h.asked, fun n c hc => h.origin n c (by rwa [Table.call?_forget] at hc),
        fun i hi hlt => ?_⟩
      obtain ⟨j, hj, hji, hl⟩ := h.parent i hi hlt
      refine ⟨j, hj, hji, ?_⟩
      rcases hl with h | h | ⟨n, c, hw, hc, hst⟩
      · exact .inl h
      · exact .inr (.inl h)
      · exact .inr (.inr ⟨n, c, hw, by rw [Table.call?_forget]; exact hc, hst⟩)
  | flight hc hm => exact h.flight hc hun' hm

/-- What is asked for stays. -/
theorem Advance.exists_request (hm : Advance s u) (hr : s.requests[i]? = some r) :
    ∃ r', u.requests[i]? = some r' ∧ r'.target = r.target := by
  obtain ⟨r', hr', ht, -⟩ := hm.move.exists_request hr
  exact ⟨r', hr', ht⟩

/-- When an asset is asked for while nothing goes on, its request is the first of the later ones. -/
theorem Blamed.ask (hanswered : ∀ (i : Nat) r, s.requests[i]? = some r → r.caller.isDone = true)
    (hended : ∀ n f, s.flights.call? n = some f → ∃ v, f.status = .finished (.result (.ok v)))
    (t : Target) : Blamed s.requests.length (s.ask t).2 where
  answered i r hi hr := by
    have hr' : (s.requests ++ [⟨t, .fresh, false⟩])[i]? = some r := hr
    rw [List.getElem?_append_left hi] at hr'
    have hdone := hanswered i r hr'
    unfold Caller.isDone Caller.outcome? at hdone
    split at hdone
    · next o ho => exact ⟨o, ho⟩
    · cases hdone
  asked := List.length_append ▸ Nat.le_add_right _ _
  origin n f hf := .inl (hended n f hf)
  parent i hi hlt := by
    have hlt' : i < (s.requests ++ [(⟨t, .fresh, false⟩ : Request)]).length := hlt
    rw [List.length_append, List.length_singleton] at hlt'
    exact absurd hi (Nat.not_lt.2 (Nat.le_of_lt_succ hlt'))

/-- Only what flights and requests have come to matters. -/
theorem Blamed.congr (h : Blamed i₀ s) (hf : u.flights = s.flights) (hr : u.requests = s.requests) :
    Blamed i₀ u where
  answered i r hi hr' := h.answered i r hi (hr ▸ hr')
  asked := hr ▸ h.asked
  origin n c hc := by
    simp only [IsWaiting, IsError, hr]
    exact h.origin n c (hf ▸ hc)
  parent i hi hlt := by
    simp only [Leads, IsOk, IsError, IsWaiting, hf, hr]
    exact h.parent i hi (hr ▸ hlt)

/-- If the first of the later requests has a result, so have all, and all flights. -/
theorem Blamed.all_ok (h : Blamed i₀ s) (hfirst : s.IsOk i₀) :
    (∀ i, i₀ ≤ i → i < s.requests.length → s.IsOk i) ∧
      ∀ n c, s.flights.call? n = some c → ∃ v, c.status = .finished (.result (.ok v)) := by
  have hapart : ∀ {j}, s.IsOk j → (∀ n, ¬ s.IsWaiting j n) ∧ ¬ s.IsError j := by
    rintro j ⟨r, v, hr, hd⟩
    refine ⟨fun n => ?_, ?_⟩
    · rintro ⟨r', hr', hw⟩
      rw [hr] at hr'; cases hr'
      rw [hd] at hw; cases hw
    · rintro ⟨r', f, hr', hd'⟩
      rw [hr] at hr'; cases hr'
      rw [hd] at hd'; cases hd'
  -- each request was made for one before it, which has no result as long as this one has none
  have hall : ∀ i, i₀ ≤ i → i < s.requests.length → s.IsOk i := by
    intro i
    induction i using Nat.strongRecOn with
    | ind i ih =>
        intro hi hlt
        rcases Nat.eq_or_lt_of_le hi with rfl | hi
        · exact hfirst
        · obtain ⟨j, hj, hji, hl⟩ := h.parent i hi hlt
          obtain ⟨hw, he⟩ := hapart (ih j hji hj (Nat.lt_trans hji hlt))
          rcases hl with hl | hl | ⟨n, c, hl, -⟩
          · exact hl
          · exact absurd hl he
          · exact absurd hl (hw n)
  refine ⟨hall, fun n c hc => ?_⟩
  rcases h.origin n c hc with hv | ⟨j, hj, hor⟩
  · exact hv
  · have hlt : j < s.requests.length := by
      rcases hor with ⟨r, hr, -⟩ | ⟨r, f, hr, -⟩ <;> exact (List.getElem?_eq_some_iff.1 hr).1
    obtain ⟨hw, he⟩ := hapart (hall j hj hlt)
    rcases hor with hor | hor
    · exact absurd hor (hw n)
    · exact absurd hor he

end HashedAssets.Resolver
