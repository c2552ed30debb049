import HashedAssets.Proofs.Resolver.Patience

/-!
# What flights and requests end with

* `Scope`: flights and requests of a part of a run, from given numbers on, have to do with each other
  only;
* `Answers`: each answer that one of them has got is of a given kind;
* `Answers.request`, `Answers.shift`, `Answers.flight`: what kind the answer of a request is follows from
  that of flights and of what is kept.
-/

namespace HashedAssets.Resolver

open SingleFlight Relation

variable {n₀ n : CallId} {i₀ : RequestId} {t t' : Table Phase Answer} {rs rs' : List Request}
  {s u : Resolver} {c : Flight}

/-! ### Parts of a run -/

/-- The flights and requests from given numbers on: only such flights are in slots or have requests that
wait for them, and flights wait for such requests only. -/
structure Scope (n₀ : CallId) (i₀ : RequestId) (t : Table Phase Answer) (rs : List Request) : Prop where
  begun : n₀ ≤ t.calls.length
  asked : i₀ ≤ rs.length
  slots : ∀ p n, t.slots.get? p = some n → n₀ ≤ n
  waiting : ∀ (i : Nat) r n, i₀ ≤ i → rs[i]? = some r → r.caller = .waiting n → n₀ ≤ n
  children : ∀ n c a es kept children, t.call? n = some c →
    c.status = .running (.gathering a es kept children) → ∀ i ∈ children, i₀ ≤ i

/-- All flights and requests are a part. -/
theorem Scope.zero (t : Table Phase Answer) (rs : List Request) : Scope 0 0 t rs where
  begun := Nat.zero_le _
  asked := Nat.zero_le _
  slots _ n _ := Nat.zero_le n
  waiting _ _ n _ _ _ := Nat.zero_le n
  children _ _ _ _ _ _ _ _ i _ := Nat.zero_le i

theorem Scope.table (h : Scope n₀ i₀ t rs) (hlen : t.calls.length ≤ t'.calls.length)
    (hslots : ∀ p n, t'.slots.get? p = some n → t.slots.get? p = some n ∨ t.calls.length ≤ n)
    (hchildren : ∀ n c a es kept children, t'.call? n = some c →
      c.status = .running (.gathering a es kept children) → ∀ i ∈ children, i₀ ≤ i) :
    Scope n₀ i₀ t' rs where
  begun := Nat.le_trans h.begun hlen
  asked := h.asked
  slots p n hn := (hslots p n hn).elim (h.slots p n) (Nat.le_trans h.begun)
  waiting := h.waiting
  children := hchildren

theorem Scope.append (h : Scope n₀ i₀ t rs) {new : List Request}
    (hnew : ∀ r ∈ new, r.caller = .fresh) : Scope n₀ i₀ t (rs ++ new) where
  begun := h.begun
  asked := by rw [List.length_append]; exact Nat.le_trans h.asked (Nat.le_add_right _ _)
  slots := h.slots
  waiting i r n hi hr hw := by
    rcases request_of_append hr with hr | ⟨-, hmem⟩
    · exact h.waiting i r n hi hr hw
    · rw [hnew r hmem] at hw; cases hw
  children := h.children

theorem Scope.recall (h : Scope n₀ i₀ t rs) {i : Nat} {y : Caller Answer}
    (hy : ∀ n, y = .waiting n → n₀ ≤ n) :
    Scope n₀ i₀ t (rs.modify i fun r => { r with caller := y }) where
  begun := h.begun
  asked := by rw [List.length_modify]; exact h.asked
  slots := h.slots
  waiting j r n hj hr hn := by
    obtain ⟨r₀, hr₀, ⟨-, rfl⟩ | ⟨-, rfl⟩⟩ := request_of_modify hr
    · exact hy n hn
    · exact h.waiting j r n hj hr₀ hn
  children := h.children

theorem Scope.hush (h : Scope n₀ i₀ t rs) (hh : Hushed rs rs') : Scope n₀ i₀ t rs' where
  begun := h.begun
  asked := Nat.le_trans h.asked hh.length_le
  slots := h.slots
  waiting i r n hi hr hw := by
    obtain ⟨r₀, hr₀, -, hc⟩ := hh.exists_eq hr
    exact h.waiting i r₀ n hi hr₀ (hc.trans hw)
  children := h.children

theorem Scope.shift (h : Scope n₀ i₀ s.flights s.requests) (hm : Shift s u) :
    Scope n₀ i₀ u.flights u.requests := by
  have hchildren : ∀ n c a es kept children, u.flights.call? n = some c →
      c.status = .running (.gathering a es kept children) → ∀ i ∈ children, i₀ ≤ i := by
    intro n c a es kept children hc hst
    rcases hm.call? hc with ⟨c₀, hc₀, -, hst₀, -⟩ | ⟨-, hl⟩
    · exact h.children n c₀ a es kept children hc₀ (hst₀.trans hst)
    · rw [hst] at hl; cases hl
  cases hm with
  | lapse hl =>
      obtain ⟨-, -, hf, hr⟩ := hl.frame
      rw [hf, hr]
      exact h
  | ask t => exact h.append fun r hr => by rw [List.mem_singleton.1 hr]
  | forget _ _ =>
      exact h.table (Nat.le_of_eq (Table.length_forget _ _).symm)
        (fun p n hn => .inl (Table.slots_of_forget hn)) hchildren
  | request hr hreq =>
      cases hreq with
      | quit _ _ => exact h.recall fun _ hw => by cases hw
      | refuse _ _ _ => exact h.recall fun _ hw => by cases hw
      | hit _ _ _ _ _ _ _ => exact h.recall fun _ hw => by cases hw
      | join _ _ _ hslot =>
          refine Scope.recall (h.table (Nat.le_of_eq (Table.length_modify _ _ _).symm)
            (fun p n hn => .inl (by rwa [Table.slots_modify] at hn)) hchildren) fun _ hw => ?_
          cases hw
          exact h.slots _ _ hslot
      | @launch p _ _ _ _ _ _ =>
          refine Scope.recall (h.table ?_ (fun q n hn => ?_) hchildren) fun _ hw => ?_
          · exact Nat.le_of_lt (List.length_append ▸ Nat.lt_succ_self _)
          · have hn' : (s.flights.slots.insert p s.flights.calls.length).get? q = some n := hn
            rw [PathMap.get?_insert] at hn'
            split at hn'
            · cases hn'; exact .inr (Nat.le_refl _)
            · exact .inl hn'
          · cases hw; exact h.begun
      | take _ _ hrs _ =>
          exact Scope.recall (Scope.hush (h.table (Nat.le_of_eq (Table.length_detach _ _).symm)
            (fun p m hm => .inl (Table.slots_of_detach hm)) hchildren) hrs) fun _ hw => by cases hw

theorem Scope.flight (h : Scope n₀ i₀ s.flights s.requests) (hc : s.flights.call? n = some c)
    (hm : FlightMove s n c u) : Scope n₀ i₀ u.flights u.requests := by
  obtain ⟨new, hrs, hnew⟩ := hm.requests
  rw [hrs]
  refine Scope.append (h.table (Nat.le_of_eq hm.length_calls.symm)
    (fun p n hn => .inl (hm.slots ▸ hn)) ?_) hnew
  intro m c' a es kept children hc' hst i hi
  rcases hm.call?_cases hc hc' with ⟨rfl, -⟩ | ⟨-, hold⟩
  · exact Nat.le_trans h.asked ((hm.children hc hc' hst i).1 hi).1
  · exact h.children m c' a es kept children hold hst i hi

theorem Scope.move (h : Scope n₀ i₀ s.flights s.requests) (hm : Move s u) :
    Scope n₀ i₀ u.flights u.requests := by
  rcases hm with hm | ⟨n, hq | ⟨c, hc, hm⟩⟩
  · exact h.shift hm
  · exact h.shift (.lapse (.quiet hq))
  · exact h.flight hc hm

/-! ### Answers of a kind -/

/-- The flights from a given number on have ended with answers of a kind, each for its path, and so have
the requests for logical paths from a given number on. -/
structure Answers (kind : String → Answer → Prop) (n₀ : CallId) (i₀ : RequestId)
    (t : Table Phase Answer) (rs : List Request) : Prop where
  flights : ∀ n c a, n₀ ≤ n → t.call? n = some c → c.status = .finished (.result a) → kind c.key a
  requests : ∀ (i : Nat) r a p, i₀ ≤ i → rs[i]? = some r → r.caller = .done (.result a) →
    r.target = .logical p → kind p a

variable {kind kind' : String → Answer → Prop}

/-- Nothing is said of flights and requests that are not there. -/
theorem Answers.beyond (hn : t.calls.length ≤ n₀) (hi : rs.length ≤ i₀) :
    Answers kind n₀ i₀ t rs where
  flights n c a hm hc :=
    absurd (Table.lt_of_call?_eq_some hc) (Nat.not_lt.2 (Nat.le_trans hn hm))
  requests i r a p hj hr := by
    rw [List.getElem?_eq_none (Nat.le_trans hi hj)] at hr
    cases hr

theorem Answers.mono (h : Answers kind n₀ i₀ t rs) (hkind : ∀ p a, kind p a → kind' p a) :
    Answers kind' n₀ i₀ t rs where
  flights n c a hn hc hst := hkind _ _ (h.flights n c a hn hc hst)
  requests i r a p hi hr hd ht := hkind _ _ (h.requests i r a p hi hr hd ht)

theorem Answers.append (h : Answers kind n₀ i₀ t rs) {new : List Request}
    (hnew : ∀ r ∈ new, r.caller = .fresh) : Answers kind n₀ i₀ t (rs ++ new) where
  flights := h.flights
  requests i r a p hi hr hd ht := by
    rcases request_of_append hr with hr | ⟨-, hmem⟩
    · exact h.requests i r a p hi hr hd ht
    · rw [hnew r hmem] at hd; cases hd

theorem Answers.recall (h : Answers kind n₀ i₀ t rs) {i : Nat} {y : Caller Answer}
    (hy : ∀ r a p, i₀ ≤ i → rs[i]? = some r → y = .done (.result a) → r.target = .logical p →
      kind p a) :
    Answers kind n₀ i₀ t (rs.modify i fun r => { r with caller := y }) where
  flights := h.flights
  requests j r a p hj hr hd ht := by
    obtain ⟨r₀, hr₀, ⟨rfl, rfl⟩ | ⟨-, rfl⟩⟩ := request_of_modify hr
    · exact hy r₀ a p hj hr₀ hd ht
    · exact h.requests j r a p hj hr₀ hd ht

theorem Answers.hush (h : Answers kind n₀ i₀ t rs) (hh : Hushed rs rs') :
    Answers kind n₀ i₀ t rs' where
  flights := h.flights
  requests i r a p hi hr hd ht := by
    obtain ⟨r₀, hr₀, ht₀, hc⟩ := hh.exists_eq hr
    exact h.requests i r₀ a p hi hr₀ (hc.trans hd) (ht₀.trans ht)

theorem Answers.calls (h : Answers kind n₀ i₀ s.flights rs) (hm : Shift s u) :
    Answers kind n₀ i₀ u.flights rs := by
  refine ⟨fun n c a hn hc hst => ?_, h.requests⟩
  rcases hm.call? hc with ⟨c₀, hc₀, hk, hst₀, -⟩ | ⟨-, hl⟩
  · exact hk ▸ h.flights n c₀ a hn hc₀ (hst₀.trans hst)
  · rw [hst] at hl; cases hl

/-- A request has its answer from a flight, from what is kept, or because there is no such asset. -/
theorem Answers.request (h : Answers kind n₀ i₀ s.flights s.requests)
    (hscope : Scope n₀ i₀ s.flights s.requests) (hs : Coherent s) {i : RequestId} {r : Request}
    (hr : s.requests[i]? = some r) (hm : RequestMove s i r u)
    (hrefuse : ∀ p f, r.target = .logical p → s.catalog.get p = .error f → kind p (.error f))
    (hhit : ∀ p e, r.target = .logical p → r.caller = .fresh → s.flights.slots.get? p = none →
      s.entries.get? p = some e → e.needsCheck = false → kind p (.ok e.resolved)) :
    Answers kind n₀ i₀ u.flights u.requests := by
  have hflights := h.calls (.request hr hm)
  cases hm with
  | quit _ _ => exact hflights.recall fun _ _ _ _ _ hd => by cases hd
  | refuse _ _ hcause =>
      refine hflights.recall fun r' a p _ hr' hd ht => ?_
      rw [hr] at hr'; cases hr'
      cases hd
      exact hrefuse p _ ht (hcause p ht)
  | hit hf _ htarget _ hidle he hn =>
      refine hflights.recall fun r' a p _ hr' hd ht => ?_
      rw [hr] at hr'; cases hr'
      have hp := htarget p ht
      subst hp
      rw [ht] at hd
      cases hd
      exact hhit _ _ ht hf hidle he hn
  | join _ _ _ _ => exact hflights.recall fun _ _ _ _ _ hd => by cases hd
  | launch _ _ _ _ _ _ => exact hflights.recall fun _ _ _ _ _ hd => by cases hd
  | @take n o rs hw hans hrs _ =>
      refine (hflights.hush hrs).recall fun r' a p hi hr' hd ht => ?_
      -- the answer is that of a flight for the path
      obtain ⟨r₀, hr₀, ht₀, -⟩ := hrs.exists_eq hr'
      rw [hr] at hr₀; cases hr₀
      have htarget := ht₀.trans ht
      rw [htarget] at hd
      cases o with
      | cancelled => cases hd
      | result b =>
          obtain ⟨c, hc, hst⟩ := Table.answer?_eq_result hans
          obtain ⟨c', hc', hallows⟩ := hs.wired.waiting _ _ n hr hw
          rw [hc] at hc'; cases hc'
          cases hd
          rw [hallows p htarget]
          exact h.flights n c b (hscope.waiting _ _ n hi hr hw) hc hst

/-- No move that a flight does not make gives any other answers. -/
theorem Answers.shift (h : Answers kind n₀ i₀ s.flights s.requests)
    (hscope : Scope n₀ i₀ s.flights s.requests) (hs : Coherent s)
    (hrefuse : ∀ p f, s.catalog.get p = .error f → kind p (.error f))
    (hhit : ∀ p e, s.entries.get? p = some e → e.needsCheck = false → kind p (.ok e.resolved))
    (hm : Shift s u) : Answers kind n₀ i₀ u.flights u.requests := by
  have hflights := h.calls hm
  cases hm with
  | lapse hl =>
      obtain ⟨-, -, -, hr⟩ := hl.frame
      rw [hr]
      exact hflights
  | ask t => exact hflights.append fun r hr => by rw [List.mem_singleton.1 hr]
  | forget _ _ => exact hflights
  | request hr hreq =>
      exact h.request hscope hs hr hreq (fun p f _ => hrefuse p f) fun p e _ _ _ => hhit p e

/-- A flight gives all the answers that are new. -/
theorem Answers.flight (h : Answers kind n₀ i₀ s.flights s.requests)
    (hc : s.flights.call? n = some c) (hm : FlightMove s n c u)
    (hnew : ∀ a, u.flights.call? n = some { c with status := .finished (.result a) } → kind c.key a) :
    Answers kind n₀ i₀ u.flights u.requests := by
  obtain ⟨new, hrs, hfresh⟩ := hm.requests
  rw [hrs]
  refine Answers.append ⟨fun m c' a hn hc' hst => ?_, h.requests⟩ hfresh
  rcases hm.call?_cases hc hc' with ⟨rfl, st, rfl, -⟩ | ⟨-, hold⟩
  · cases hst
    exact hnew a hc'
  · exact h.flights m c' a hn hold hst

end HashedAssets.Resolver
