import HashedAssets.Proofs.Resolver.Changes

/-!
# Runs in which nobody gives up

* `collect_eq_ok`, `collect_eq_error`, `collect_eq_cancelled`: what a flight gets from the requests it
  waits for;
* `Unhurried`: nothing is cancelled; every run of patient callers keeps it.
-/

namespace HashedAssets.Resolver

open SingleFlight Relation

variable {s u : Resolver} {n : CallId} {c : Flight} {children : List RequestId}

/-! ### Answers -/

theorem collect_eq_ok {m : PathMap Resolved} (h : s.collect children = .result (.ok m)) :
    (∀ i ∈ children, ∃ r, s.outcome? i = some (.result (.ok r)) ∧ ∃ r', m.get? r.path = some r') ∧
    ∀ t r, m.get? t = some r → r.path = t ∧ ∃ i ∈ children, s.outcome? i = some (.result (.ok r)) := by
  -- the first request without a result would decide, so here all of them have one
  induction children generalizing m with
  | nil =>
      cases h
      exact ⟨by simp, fun t r ht => by cases ht⟩
  | cons i rest ih =>
      rw [collect] at h
      split at h
      · next r hr =>
          split at h
          · next m' hm' =>
              cases h
              obtain ⟨h1, h2⟩ := ih hm'
              refine ⟨fun j hj => ?_, fun t r' ht => ?_⟩
              · rcases List.mem_cons.1 hj with rfl | hj
                · exact ⟨r, hr, r, by simp⟩
                · obtain ⟨r₁, hr₁, r₂, hr₂⟩ := h1 j hj
                  refine ⟨r₁, hr₁, ?_⟩
                  rw [PathMap.get?_insert]
                  split
                  · exact ⟨r, rfl⟩
                  · exact ⟨r₂, hr₂⟩
              · rw [PathMap.get?_insert] at ht
                split at ht
                · next he => cases ht; exact ⟨he.symm, i, List.mem_cons_self, hr⟩
                · obtain ⟨hp, j, hj, hrj⟩ := h2 t r' ht
                  exact ⟨hp, j, List.mem_cons_of_mem _ hj, hrj⟩
          · next hne =>
              exact absurd h (hne m)
      · cases h
      · cases h
      · cases h

theorem collect_eq_error {f : Failure} (h : s.collect children = .result (.error f)) :
    ∃ i ∈ children, s.outcome? i = some (.result (.error f)) := by
  induction children with
  | nil => cases h
  | cons i rest ih =>
      rw [collect] at h
      split at h
      · split at h
        · cases h
        · obtain ⟨j, hj, hf⟩ := ih h
          exact ⟨j, List.mem_cons_of_mem _ hj, hf⟩
      · next g hg => cases h; exact ⟨i, List.mem_cons_self, hg⟩
      · cases h
      · cases h

theorem collect_eq_cancelled (h : s.collect children = .cancelled) :
    ∃ i ∈ children, s.outcome? i = some .cancelled ∨ s.outcome? i = none := by
  induction children with
  | nil => cases h
  | cons i rest ih =>
      rw [collect] at h
      split at h
      · split at h
        · cases h
        · obtain ⟨j, hj, hf⟩ := ih h
          exact ⟨j, List.mem_cons_of_mem _ hj, hf⟩
      · cases h
      · next hc => exact ⟨i, List.mem_cons_self, .inl hc⟩
      · next hc => exact ⟨i, List.mem_cons_self, .inr hc⟩

theorem outcome?_eq_some_iff {i : RequestId} {o : Outcome Answer} :
    s.outcome? i = some o ↔ ∃ r, s.requests[i]? = some r ∧ r.caller = .done o := by
  unfold outcome?
  cases h : s.requests[i]? with
  | none => simp
  | some r =>
      simp only [Option.bind_some, Option.some.injEq, exists_eq_left']
      cases r.caller <;> simp [Caller.outcome?]

/-! ### Nothing is cancelled -/

/-- Nothing is cancelled: no request, no flight, and no outcome of one. -/
structure Unhurried (s : Resolver) : Prop where
  calls : ∀ n c, s.flights.call? n = some c → c.cancelled = false ∧ c.status ≠ .finished .cancelled
  requests : ∀ (i : Nat) r, s.requests[i]? = some r → r.cancelled = false ∧ r.caller ≠ .done .cancelled

theorem Unhurried.make (x : Context) (c : Catalog) (watch : Option Watch) :
    Unhurried (make x c watch) where
  calls n c h := by cases h
  requests i r h := by cases h

theorem Unhurried.congr (h : Unhurried s) (hf : u.flights = s.flights) (hr : u.requests = s.requests) :
    Unhurried u where
  calls n c hc := h.calls n c (hf ▸ hc)
  requests i r hr' := h.requests i r (hr ▸ hr')

/-- A caller who takes an answer leaves nobody behind. -/
theorem detach_of_finished (hc : s.flights.call? n = some c)
    (hdone : c.isRunning = false) :
    s.flights.detach n = s.flights.modify n fun c => { c with waiters := c.waiters - 1 } := by
  rcases s.flights.detach_cases n with he | ⟨c', hc', hr, -⟩
  · exact he
  · rw [hc] at hc'; cases hc'
    rw [hdone] at hr; cases hr

/-- A flight that has an answer has ended. -/
theorem Unhurried.answer (h : Unhurried s) {i : RequestId} {r : Request} {o : Outcome Answer}
    (hr : s.requests[i]? = some r) (ho : s.flights.answer? r.cancelled n = some o) :
    ∃ c a, s.flights.call? n = some c ∧ c.status = .finished o ∧ o = .result a := by
  rw [(h.requests i r hr).1, Table.answer?, if_neg (by simp)] at ho
  obtain ⟨c, hc, hco⟩ := Option.bind_eq_some_iff.1 ho
  unfold Call.outcome? at hco
  split at hco
  · cases hco
  · next o' hst =>
      cases hco
      have hne := (h.calls n c hc).2
      rw [hst] at hne
      cases o with
      | cancelled => exact absurd rfl hne
      | result a => exact ⟨c, a, hc, hst, rfl⟩

theorem Unhurried.recall (h : Unhurried s) {i : Nat} {x : Caller Answer} (hx : x ≠ .done .cancelled)
    {t : Table Phase Answer} (ht : ∀ n c, t.call? n = some c → c.cancelled = false ∧
      c.status ≠ .finished .cancelled) :
    Unhurried ({ s with flights := t }.setCaller i x) where
  calls := ht
  requests j r hr := by
    rw [getElem?_setCaller] at hr
    split at hr
    · obtain ⟨r₀, hr₀, rfl⟩ := Option.map_eq_some_iff.1 hr
      exact ⟨(h.requests j r₀ hr₀).1, hx⟩
    · exact h.requests j r hr

theorem Unhurried.modify (h : Unhurried s) {f : Flight → Flight}
    (hf : ∀ c, s.flights.call? n = some c → (f c).cancelled = c.cancelled ∧
      (f c).status ≠ .finished .cancelled) :
    ∀ m c, (s.flights.modify n f).call? m = some c → c.cancelled = false ∧
      c.status ≠ .finished .cancelled := fun m c hc => by
  rcases Table.call?_modify_cases hc with ⟨rfl, c₀, hc₀, rfl⟩ | ⟨-, hc⟩
  · obtain ⟨h1, h2⟩ := hf c₀ hc₀
    exact ⟨h1.trans (h.calls m c₀ hc₀).1, h2⟩
  · exact h.calls m c hc

theorem Unhurried.request (h : Unhurried s) {i : RequestId} {r : Request}
    (hr : s.requests[i]? = some r) (hm : RequestMove s i r u) : Unhurried u := by
  cases hm with
  | quit _ hcan => rw [(h.requests i r hr).1] at hcan; cases hcan
  | refuse _ _ _ => exact h.recall (by simp) h.calls
  | hit _ _ _ _ _ _ _ => exact h.recall (by simp) h.calls
  | join _ _ _ _ =>
      exact h.recall (by simp) (h.modify fun c hc => ⟨rfl, (h.calls _ c hc).2⟩)
  | launch _ _ _ _ _ _ =>
      refine h.recall (by simp) fun m c hc => ?_
      rcases Table.call?_append_cases hc with ⟨-, rfl⟩ | hc
      · exact ⟨rfl, by simp⟩
      · exact h.calls m c hc
  | @take n o rs _ hans _ hsilenced =>
      obtain ⟨c, a, hc, hst, rfl⟩ := h.answer hr hans
      have hdet := detach_of_finished hc (isRunning_eq_false_of_status hst)
      have hcalls := h.modify (n := n) (f := fun c => { c with waiters := c.waiters - 1 })
        fun c hc => ⟨rfl, (h.calls _ c hc).2⟩
      rw [← hdet] at hcalls
      -- nobody is told to stop, for the flight has ended
      have hrs : rs = s.requests := by
        by_contra hne
        obtain ⟨c', hc', hcan⟩ := hsilenced hne
        rw [(hcalls n c' hc').1] at hcan; cases hcan
      subst hrs
      exact h.recall (by simp [Target.acceptOutcome]) hcalls

theorem Unhurried.shift (h : Unhurried s) (hm : Shift s u) : Unhurried u := by
  cases hm with
  | lapse hl =>
      obtain ⟨-, -, hf, hr⟩ := hl.frame
      exact ⟨by rw [hf]; exact h.calls, by rw [hr]; exact h.requests⟩
  | ask t =>
      refine ⟨h.calls, fun i r hr => ?_⟩
      have hr' : (s.requests ++ [⟨t, .fresh, false⟩])[i]? = some r := hr
      rcases request_of_append hr' with hr' | ⟨-, hmem⟩
      · exact h.requests i r hr'
      · rw [List.mem_singleton.1 hmem]
        exact ⟨rfl, by simp⟩
  | forget _ _ => exact ⟨fun n c hc => h.calls n c (by rwa [Table.call?_forget] at hc), h.requests⟩
  | request hr hreq => exact h.request hr hreq

theorem Unhurried.flight (h : Unhurried s) (hc : s.flights.call? n = some c)
    (hm : FlightMove s n c u) : Unhurried u := by
  refine ⟨fun m c' hc' => ?_, fun i r hr => ?_⟩
  · rcases hm.call?_cases hc hc' with ⟨rfl, st, rfl, -⟩ | ⟨-, hold⟩
    · refine ⟨(h.calls m c hc).1, fun hst => ?_⟩
      cases hst
      cases hm.stage hc hc' with
      | stopped hcause =>
          -- it has not been asked to stop, and none of its requests has ended as cancelled
          rcases hcause with hcan | ⟨a, es, kept, children, -, hdone, hcol⟩
          · rw [(h.calls m c hc).1] at hcan; cases hcan
          · obtain ⟨i, hi, ho | ho⟩ := collect_eq_cancelled hcol
            · obtain ⟨r, hr, hdone'⟩ := outcome?_eq_some_iff.1 ho
              exact (h.requests i r hr).2 hdone'
            · have hsome := hdone i hi
              rw [ho] at hsome; cases hsome
    · exact h.calls m c' hold
  · rcases hm.request_cases hr with hold | ⟨-, hfresh, hcan⟩
    · exact h.requests i r hold
    · exact ⟨hcan, by simp [hfresh]⟩

theorem Unhurried.move (h : Unhurried s) (hm : Move s u) : Unhurried u := by
  rcases hm with hm | ⟨n, hq | ⟨c, hc, hm⟩⟩
  · exact h.shift hm
  · exact h.shift (.lapse (.quiet hq))
  · exact h.flight hc hm

theorem Unhurried.moves (h : Unhurried s) (hm : ReflTransGen Move s u) : Unhurried u := by
  induction hm with
  | refl => exact h
  | tail _ hm ih => exact ih.move hm

theorem Unhurried.run {ok : Action → Prop} (h : Unhurried s) (hrun : Run ok s u)
    (hok : ∀ a, ok a → a.Patient) : Unhurried u :=
  hrun.induction hok h fun _ _ hP hm => hP.move hm

end HashedAssets.Resolver
