import HashedAssets.Proofs.Resolver.Keeping
import HashedAssets.Proofs.Resolver.Loads
import HashedAssets.Proofs.Resolver.Overtaken

/-!
# Each source is loaded once

While nothing is dropped, nobody gives up and no flight fails, a path has one flight, whatever asks for it
and whenever: requests join the flight while it is in its slot, and use what it has left afterwards.

* `Satisfied`: a request has got what its target makes of the kept result of its path;
* `Once`: each path has one flight, and what is kept are the results of flights;
* `once_of_tally`: what holds of every run.
-/

namespace HashedAssets.Resolver

open SingleFlight Relation

variable {s t u : Resolver} {n : CallId} {c c' : Flight} {p : String} {ok : Action → Prop}

/-! ### One flight for each path -/

/-- No flight has failed. -/
def NoFailure (s : Resolver) : Prop :=
  ∀ n c f, s.flights.call? n = some c → c.status ≠ .finished (.result (.error f))

theorem NoFailure.of_move (h : NoFailure u) (hm : Move s u) : NoFailure s := by
  intro n c f hc hst
  obtain ⟨c', hc', -, hst'⟩ := hm.finished hc hst
  exact h n c' f hc' hst'

/-- How a request for a target ended: with what the target makes of the kept result of the path that it
stands for, or refused if it stands for no registered asset. -/
def Satisfied (s : Resolver) (t : Target) (o : Outcome Answer) : Prop :=
  (∃ p e, t.Allows p ∧ s.entries.get? p = some e ∧ o = .result (t.accept p (.ok e.resolved))) ∨
    (∀ q, t = .logical q → s.catalog.contains q = false) ∧ ∃ f, o = .result (.error f)

/-- Each path has one flight at most. What is kept are the results of flights, and requests have got
these. -/
structure Once (s : Resolver) : Prop where
  lasting : Lasting s
  single : ∀ {m n : CallId} {c d : Flight}, s.flights.call? m = some c → s.flights.call? n = some d →
    c.key = d.key → m = n
  kept : ∀ {n : CallId} {c : Flight} {r : Resolved}, s.flights.call? n = some c →
    c.status = .finished (.result (.ok r)) → ∃ e, s.entries.get? c.key = some e ∧ e.resolved = r
  made : ∀ {p : String} {e : Entry}, s.entries.get? p = some e → ∃ n c, s.flights.call? n = some c ∧
    c.key = p ∧ c.status = .finished (.result (.ok e.resolved))
  satisfied : ∀ {i : Nat} {r : Request} {o : Outcome Answer}, s.requests[i]? = some r →
    r.caller = .done o → s.Satisfied r.target o
  registered : ∀ {n : CallId} {c : Flight}, s.flights.call? n = some c →
    s.catalog.contains c.key = true

theorem Once.make (x : Context) (cat : Catalog) (watch : Option Watch) : Once (make x cat watch) where
  lasting := .make x cat watch
  single h := by cases h
  kept h := by cases h
  made h := by cases h
  satisfied h := by cases h
  registered h := by cases h

/-- A change of neither flights nor kept results, nor of how requests ended. -/
theorem Once.congr (h : Once s) (hd : u.dropOnLanding = s.dropOnLanding) (he : u.entries = s.entries)
    (hcat : u.catalog.entries = s.catalog.entries)
    (hcalls : ∀ {m : CallId} {c' : Flight}, u.flights.call? m = some c' →
      ∃ c, s.flights.call? m = some c ∧ c'.key = c.key ∧
        ∀ o, c'.status = .finished o → c.status = .finished o)
    (hcalls' : ∀ {m : CallId} {c : Flight} {o : Outcome Answer}, s.flights.call? m = some c →
      c.status = .finished o → ∃ c', u.flights.call? m = some c' ∧ c'.key = c.key ∧
        c'.status = .finished o)
    (hsat : ∀ {i : Nat} {r : Request} {o : Outcome Answer}, u.requests[i]? = some r →
      r.caller = .done o → s.Satisfied r.target o) : Once u where
  lasting := h.lasting.of_eq hd he
  single hc hd hk := by
    obtain ⟨c, hc', hkc, -⟩ := hcalls hc
    obtain ⟨d, hd', hkd, -⟩ := hcalls hd
    exact h.single hc' hd' (hkc.symm.trans (hk.trans hkd))
  kept hc hst := by
    obtain ⟨c, hc', hk, hfin⟩ := hcalls hc
    rw [hk, he]
    exact h.kept hc' (hfin _ hst)
  made {p e} hpe := by
    rw [he] at hpe
    obtain ⟨n, c, hc, hk, hst⟩ := h.made hpe
    obtain ⟨c', hc', hk', hst'⟩ := hcalls' hc hst
    exact ⟨n, c', hc', hk'.trans hk, hst'⟩
  satisfied hr hdone := by
    have hcontains : ∀ q, u.catalog.contains q = s.catalog.contains q := fun q => by
      rw [Catalog.contains, Catalog.contains, hcat]
    have hs := hsat hr hdone
    rw [Satisfied] at hs ⊢
    simpa only [he, hcontains] using hs
  registered hc := by
    obtain ⟨c, hc', hk, -⟩ := hcalls hc
    rw [hk, Catalog.contains, hcat]
    exact h.registered hc'

/-- Flights that requests join or leave stay as far as they are. -/
theorem Shift.status_of_length (hm : Shift s u)
    (hlen : u.flights.calls.length = s.flights.calls.length) (hc' : u.flights.call? n = some c') :
    ∃ c, s.flights.call? n = some c ∧ c'.key = c.key ∧ c'.status = c.status := by
  rcases hm.call? hc' with ⟨c, hc, hk, hst, -⟩ | ⟨hn, -⟩
  · exact ⟨c, hc, hk.symm, hst.symm⟩
  · have hlt := Table.lt_of_call?_eq_some hc'
    rw [hlen, hn] at hlt
    exact absurd hlt (Nat.lt_irrefl _)

theorem Once.recall (h : Once s) {i : RequestId} {r : Request} (hr : s.requests[i]? = some r)
    {flights : Table Phase Answer} {rs : List Request} (hrs : Hushed s.requests rs) {x : Caller Answer}
    (hx : ∀ o, x = .done o → s.Satisfied r.target o) {j : Nat} {r' : Request} {o : Outcome Answer}
    (hr' : ({ s with flights, requests := rs }.setCaller i x).requests[j]? = some r')
    (hd : r'.caller = .done o) : s.Satisfied r'.target o := by
  have hbefore : ∀ {q : Request}, rs[j]? = some q → ∃ q₀, s.requests[j]? = some q₀ ∧
      q.target = q₀.target ∧ q.caller = q₀.caller := fun {q} hq => by
    have hj := hrs j
    rw [hq] at hj
    obtain ⟨q₀, hq₀, he⟩ := Option.map_eq_some_iff.1 hj.symm
    obtain ⟨ht, hc⟩ := Prod.mk.inj he
    exact ⟨q₀, hq₀, ht.symm, hc.symm⟩
  rw [getElem?_setCaller] at hr'
  split at hr'
  · next hji =>
      obtain ⟨q, hq, rfl⟩ := Option.map_eq_some_iff.1 hr'
      obtain ⟨q₀, hq₀, ht, -⟩ := hbefore hq
      subst hji
      rw [hr] at hq₀
      cases hq₀
      exact ht ▸ hx o hd
  · obtain ⟨q₀, hq₀, ht, hcall⟩ := hbefore hr'
    exact ht ▸ h.satisfied hq₀ (hcall ▸ hd)

/-- A path that has had a flight has it in its slot, or what the flight has left. -/
theorem Once.key_ne (h : Once s) (hs : Coherent s) (hun : Unhurried s) (hno : NoFailure s)
    (hidle : s.flights.slots.get? p = none)
    (hmarked : ∀ e, s.entries.get? p = some e → e.needsCheck = true)
    (hc : s.flights.call? n = some c) : c.key ≠ p := by
  rintro rfl
  cases hst : c.status with
  | running w =>
      have hheld := hs.wired.held n c hc (isRunning_of_status hst) (hun.calls n c hc).1
      rw [hidle] at hheld
      cases hheld
  | finished o => cases o with
    | cancelled => exact (hun.calls n c hc).2 hst
    | result a => cases a with
      | error f => exact hno n c f hc hst
      | ok r =>
          obtain ⟨e, he, -⟩ := h.kept hc hst
          have hm := hmarked e he
          rw [h.lasting.unmarked c.key e he] at hm
          cases hm

/-- A flight for a path that has had none. -/
theorem Once.launch (h : Once s) (hs : Coherent s) (hun : Unhurried s) (hno : NoFailure s)
    (hidle : s.flights.slots.get? p = none)
    (hmarked : ∀ e, s.entries.get? p = some e → e.needsCheck = true)
    (hreg : s.catalog.contains p = true) {rs : List Request}
    (hsat : ∀ {j : Nat} {r' : Request} {o : Outcome Answer}, rs[j]? = some r' →
      r'.caller = .done o → s.Satisfied r'.target o) :
    Once { s with
      flights := ⟨s.flights.slots.insert p s.flights.calls.length,
        s.flights.calls ++ [(⟨p, .running .launched, 1, false⟩ : Flight)]⟩
      requests := rs } where
  lasting := h.lasting.of_eq rfl rfl
  single {m k c d} hc hd hk := by
    rcases Table.call?_append_cases hc with ⟨hm, rfl⟩ | hc <;>
      rcases Table.call?_append_cases hd with ⟨hn, rfl⟩ | hd
    · exact hm.trans hn.symm
    · exact absurd hk.symm (h.key_ne hs hun hno hidle hmarked hd)
    · exact absurd hk (h.key_ne hs hun hno hidle hmarked hc)
    · exact h.single hc hd hk
  kept {m c r} hc hst := by
    rcases Table.call?_append_cases hc with ⟨-, rfl⟩ | hc
    · cases hst
    · exact h.kept hc hst
  made hpe := by
    obtain ⟨m, c, hc, hk, hst⟩ := h.made hpe
    refine ⟨m, c, ?_, hk, hst⟩
    dsimp only
    rw [Table.call?_append, if_neg (Nat.ne_of_lt (Table.lt_of_call?_eq_some hc))]
    exact hc
  satisfied := hsat
  registered hc := by
    rcases Table.call?_append_cases hc with ⟨-, rfl⟩ | hc
    · exact hreg
    · exact h.registered hc

/-- A request joins the flight for its path, or uses what it has left; it begins a flight only for a path
that has had none. -/
theorem Once.request (h : Once s) (hs : Coherent s) (hun : Unhurried s) (hno : NoFailure s)
    {i : RequestId} {r : Request} (hr : s.requests[i]? = some r) (hm : RequestMove s i r u) :
    Once u := by
  have hshift : Shift s u := .request hr hm
  have hkeep : u.dropOnLanding = s.dropOnLanding → u.entries = s.entries →
      u.catalog.entries = s.catalog.entries → u.flights.calls.length = s.flights.calls.length →
      (∀ {j : Nat} {r' : Request} {o : Outcome Answer}, u.requests[j]? = some r' →
        r'.caller = .done o → s.Satisfied r'.target o) → Once u := fun hd he hcat hlen =>
    h.congr hd he hcat
      (fun hc' => by
        obtain ⟨c, hc, hk, hst⟩ := hshift.status_of_length hlen hc'
        exact ⟨c, hc, hk, fun o ho => hst.symm.trans ho⟩)
      fun hc hst => by
        obtain ⟨c', hc', hk, hst'⟩ := hshift.exists_call? hc
        exact ⟨c', hc', hk, hst'.trans hst⟩
  cases hm with
  | quit _ hcan => rw [(hun.requests i r hr).1] at hcan; cases hcan
  | @refuse f _ _ hcause =>
      refine hkeep rfl rfl rfl rfl fun hr' => h.recall hr (.refl _) (fun o ho => ?_) hr'
      cases ho
      refine .inr ⟨fun q hq => ?_, f, rfl⟩
      rw [← Bool.not_eq_true, Catalog.contains_iff]
      rintro ⟨d, hd⟩
      have hget := Catalog.get_eq_ok_iff.2 hd
      rw [hcause q hq] at hget
      cases hget
  | @hit p e _ _ htarget _ _ he _ =>
      refine hkeep rfl rfl rfl rfl fun hr' => h.recall hr (.refl _) (fun o ho => ?_) hr'
      cases ho
      exact .inl ⟨p, e, htarget, he, rfl⟩
  | @join p n _ _ _ _ =>
      refine hkeep rfl rfl rfl (Table.length_modify _ _ _) fun hr' =>
        h.recall hr (.refl _) (fun o ho => ?_) hr'
      cases ho
  | @launch p _ _ htarget hreg hidle hmarked =>
      exact h.launch hs hun hno hidle hmarked hreg fun hr' =>
        h.recall hr (.refl _) (fun o ho => by cases ho) hr'
  | @take n o rs hw hans hothers _ =>
      refine hkeep rfl rfl rfl (Table.length_detach _ _) fun hr' => h.recall hr hothers (fun o' ho => ?_) hr'
      cases ho
      obtain ⟨c, a, hc, hst, rfl⟩ := hun.answer hr hans
      obtain ⟨c', hc', hallows⟩ := hs.wired.waiting i r n hr hw
      obtain rfl : c = c' := Option.some.inj (hc.symm.trans hc')
      have hpath : s.pathOf n = c.key := by simp [pathOf, hc]
      cases a with
      | error f => exact absurd hst (hno n c f hc)
      | ok v =>
          obtain ⟨e, he, rfl⟩ := h.kept hc hst
          exact .inl ⟨c.key, e, hallows, he, by rw [hpath]; rfl⟩

/-- A flight that ends keeps its result, and no flight before it has. -/
theorem Once.land (h : Once s) (hs : Coherent s) (hc : s.flights.call? n = some c)
    (hr : c.isRunning = true) (hgo : c.cancelled = false) (a : Prepared) (r : Resolved) :
    Once ({ s with entries := s.entries.insert c.key ⟨a, r, false⟩ }.ended n (.result (.ok r))) := by
  have habsent := h.lasting.absent hs hc hr hgo
  have hbefore : ∀ {m : CallId} {d : Flight},
      (s.flights.finish n (.result (.ok r))).call? m = some d →
        ∃ d₀, s.flights.call? m = some d₀ ∧ d.key = d₀.key := fun hd => by
    rcases Table.call?_modify_cases hd with ⟨-, d₀, hd₀, rfl⟩ | ⟨-, hd₀⟩
    · exact ⟨d₀, hd₀, rfl⟩
    · exact ⟨_, hd₀, rfl⟩
  -- what was kept before is kept under another path
  have hother : ∀ {q : String} {e : Entry}, s.entries.get? q = some e →
      (s.entries.insert c.key ⟨a, r, false⟩).get? q = some e := fun {q e} he => by
    rw [PathMap.get?_insert, if_neg, he]
    rintro rfl
    rw [habsent] at he
    cases he
  have hentry : ∀ {q : String} {e : Entry}, (s.entries.insert c.key ⟨a, r, false⟩).get? q = some e →
      q = c.key ∧ e = ⟨a, r, false⟩ ∨ s.entries.get? q = some e := fun {q e} he => by
    rw [PathMap.get?_insert] at he
    split at he
    · next hq => cases he; exact .inl ⟨hq, rfl⟩
    · exact .inr he
  refine
    { lasting := ⟨h.lasting.noted, fun q e he => ?_⟩
      single := fun hx hy hk => ?_
      kept := fun {m d v} hd hst => ?_
      made := fun {q e} he => ?_
      satisfied := fun hr' hdone => ?_
      registered := fun hd => ?_ }
  · rcases hentry he with ⟨-, rfl⟩ | he
    · rfl
    · exact h.lasting.unmarked q e he
  · obtain ⟨x, hx, hkx⟩ := hbefore hx
    obtain ⟨y, hy, hky⟩ := hbefore hy
    exact h.single hx hy (hkx.symm.trans (hk.trans hky))
  · rcases Table.call?_modify_cases hd with ⟨rfl, d₀, hd₀, rfl⟩ | ⟨-, hd⟩
    · obtain rfl : c = d₀ := Option.some.inj (hc.symm.trans hd₀)
      cases hst
      exact ⟨_, PathMap.get?_insert_self _ _ _, rfl⟩
    · obtain ⟨e, he, hv⟩ := h.kept hd hst
      exact ⟨e, hother he, hv⟩
  · rcases hentry he with ⟨rfl, rfl⟩ | he
    · exact ⟨n, _, call?_finish_self hc _, rfl, rfl⟩
    · obtain ⟨m, d, hd, hk, hst⟩ := h.made he
      refine ⟨m, d, ?_, hk, hst⟩
      have hmn : m ≠ n := by
        rintro rfl
        rw [hc] at hd; cases hd
        exact not_finished_of_isRunning hr _ hst
      exact (Table.call?_finish _ _ _ _).trans ((if_neg hmn).trans hd)
  · rcases h.satisfied hr' hdone with ⟨q, e, hq, he, ho⟩ | hrefused
    · exact .inl ⟨q, e, hq, hother he, ho⟩
    · exact .inr hrefused
  · obtain ⟨d₀, hd₀, hk⟩ := hbefore hd
    exact hk ▸ h.registered hd₀

theorem Once.flight (h : Once s) (hs : Coherent s) (hun : Unhurried u) (hno : NoFailure u)
    (hc : s.flights.call? n = some c) (hm : FlightMove s n c u) : Once u := by
  have hfailed : ∀ f, u.flights = s.flights.finish n (.result (.error f)) → Once u := fun f hu =>
    absurd rfl (hno n _ f (by rw [hu]; exact call?_finish_self hc _))
  have hcancelled : u.flights = s.flights.finish n .cancelled → Once u := fun hu =>
    absurd rfl (hun.calls n _ (by rw [hu]; exact call?_finish_self hc _)).2
  have hon : ∀ {w : Phase}, u.flights = s.flights.progress n w → u.dropOnLanding = s.dropOnLanding →
      u.entries = s.entries → u.catalog.entries = s.catalog.entries → Once u := fun hu hd he hcat =>
    h.congr hd he hcat
      (fun {m c'} hc' => by
        rw [hu] at hc'
        rcases Table.call?_modify_cases hc' with ⟨-, c₀, hc₀, rfl⟩ | ⟨-, hc'⟩
        · exact ⟨c₀, hc₀, rfl, fun o ho => by cases ho⟩
        · exact ⟨c', hc', rfl, fun _ => id⟩)
      (fun {m c₀ o} hc₀ hst => by
        refine ⟨c₀, ?_, rfl, hst⟩
        rw [hu, Table.call?_progress, if_neg, hc₀]
        rintro rfl
        rw [hc] at hc₀; cases hc₀
        exact not_finished_of_isRunning hm.isRunning _ hst)
      fun {i r o} hr hdone => by
        rcases hm.request_cases hr with hr | ⟨-, hfresh, -⟩
        · exact h.satisfied hr hdone
        · rw [hfresh] at hdone; cases hdone
  cases hm with
  | stop _ _ => exact hcancelled rfl
  | abandon _ _ _ => exact hcancelled rfl
  | hold _ _ _ _ => exact hon rfl rfl rfl (Catalog.entries_fetch _ _)
  | recheck _ _ _ _ => exact hon rfl rfl rfl rfl
  | gather _ _ _ _ _ _ => exact hon rfl rfl rfl rfl
  | cycle _ _ _ _ _ _ => exact hfailed _ rfl
  | fail _ _ _ => exact hfailed _ rfl
  | crash _ _ _ => exact hfailed _ rfl
  | land hgo hl _ =>
      obtain ⟨a, rfl⟩ := h.lasting.landing hs hc hgo hl
      exact h.land hs hc hl.isRunning hgo a _
  | discard _ _ hd => rw [h.lasting.noted] at hd; cases hd

theorem Once.advance (h : Once s) (hs : Coherent s) (hun : Unhurried s) (hno : NoFailure u)
    (hm : Advance s u) : Once u := by
  have hno' : NoFailure s := hno.of_move hm.move
  have hsame : u.dropOnLanding = s.dropOnLanding → u.entries = s.entries →
      u.catalog.entries = s.catalog.entries → (∀ m, u.flights.call? m = s.flights.call? m) →
      u.requests = s.requests → Once u := fun hd he hcat hcalls hrs =>
    h.congr hd he hcat (fun {m c'} hc' => ⟨c', hcalls m ▸ hc', rfl, fun _ => id⟩)
      (fun {m c o} hc hst => ⟨c, (hcalls m).trans hc, rfl, hst⟩) fun hr => h.satisfied (hrs ▸ hr)
  cases hm with
  | calm hm =>
      cases hm with
      | quiet hq => cases hq; exact hsame rfl rfl rfl (fun _ => rfl) rfl
      | request hr hm => exact h.request hs hun hno' hr hm
  | forget _ _ => exact hsame rfl rfl rfl (fun m => Table.call?_forget _ _ _) rfl
  | flight hc hm => exact h.flight hs (hun.flight hc hm) hno hc hm

theorem Once.ask (h : Once s) (target : Target) : Once (s.ask target).2 := by
  refine h.congr rfl rfl rfl (fun {m c'} hc' => ⟨c', hc', rfl, fun _ => id⟩)
    (fun {m c o} hc hst => ⟨c, hc, rfl, hst⟩) fun {i r o} hr hdone => ?_
  have hr' : (s.requests ++ [⟨target, .fresh, false⟩])[i]? = some r := hr
  rcases request_of_append hr' with hr' | ⟨-, hmem⟩
  · exact h.satisfied hr' hdone
  · rw [List.mem_singleton.1 hmem] at hdone; cases hdone

/-! ### Whole runs -/

/-- What is kept of what has happened: each path has one flight, which has loaded its source once at most,
and each result that is kept has been counted. -/
structure Recorded (s : Resolver) (loaded : List String) : Prop where
  once : Once s
  begun : ∀ q ∈ loaded, ∃ n c, s.flights.call? n = some c ∧ c.key = q ∧ 1 ≤ rank c.status
  nodup : loaded.Nodup
  counted : s.stats.resolutions = s.entries.size

theorem rank_le_of_moves (hm : ReflTransGen Move s u) (hc : s.flights.call? n = some c) :
    ∃ c', u.flights.call? n = some c' ∧ c'.key = c.key ∧ rank c.status ≤ rank c'.status := by
  induction hm with
  | refl => exact ⟨c, hc, rfl, Nat.le_refl _⟩
  | tail _ hm ih =>
      obtain ⟨c', hc', hk, hle⟩ := ih
      obtain ⟨c'', hc'', hk', hst⟩ := hm.exists_call? hc'
      exact ⟨c'', hc'', hk'.trans hk, Nat.le_trans hle (hst.elim (fun h => h ▸ Nat.le_refl _) Nat.le_of_lt)⟩

theorem NoFailure.of_moves (hm : ReflTransGen Move s u) (h : NoFailure u) : NoFailure s := by
  induction hm with
  | refl => exact h
  | tail _ hm ih => exact ih (h.of_move hm)

/-- What actions leave that drop nothing and give nothing up, if no flight fails. -/
theorem Once.act (h : Once s) (hs : Coherent s) (hun : Unhurried s) (hw : s.watch = none) {b : Action}
    (hb : b.Patient ∧ b.Keeps) (hadm : s.Admits b) (hno : NoFailure (s.act b)) : Once (s.act b) := by
  have hinternal : b.Internal → Once (s.act b) := fun hi => by
    have hmoves := advances_act hadm hi hw
    have hall : Coherent (s.act b) ∧ Unhurried (s.act b) ∧ (NoFailure (s.act b) → Once (s.act b)) := by
      generalize s.act b = u at hmoves
      clear hno
      induction hmoves with
      | refl => exact ⟨hs, hun, fun _ => h⟩
      | tail _ hm ih =>
          obtain ⟨hs', hun', honce⟩ := ih
          exact ⟨hs'.move hm.move, hun'.move hm.move,
            fun hno => (honce (hno.of_move hm.move)).advance hs' hun' hno hm⟩
    exact hall.2.2 hno
  cases b with
  | ask target => exact h.ask target
  | openGate g => exact hinternal trivial
  | closeGate g => exact hinternal trivial
  | step x => exact hinternal trivial
  | cancel i => exact hb.1.elim
  | _ => exact hb.2.elim

theorem Once.balanced_act (h : Once s) (hs : Coherent s) (hun : Unhurried s) (hw : s.watch = none)
    {b : Action} (hb : b.Patient ∧ b.Keeps) : Balanced s (s.act b) := by
  cases b with
  | step x =>
      cases x with
      | forget n => exact balanced_of_eq rfl rfl
      | request i => exact balanced_runRequest hw i
      | flight n =>
          exact balanced_runFlight h.lasting.noted
            (fun c hc hr => h.lasting.absent hs hc hr (hun.calls n c hc).1)
            fun c a es kept children hc => h.lasting.kept_eq_none hs hc (hun.calls n c hc).1
  | ask target => exact balanced_of_eq rfl rfl
  | openGate g => exact balanced_of_eq rfl rfl
  | closeGate g => exact balanced_of_eq rfl rfl
  | cancel i => exact hb.1.elim
  | _ => exact hb.2.elim

/-- A source is asked by a flight for its path that begins. -/
theorem exists_of_loadBy? (hs : Coherent s) {b : Action} {d : Definition} (hd : s.loadBy? b = some d) :
    ∃ n c, b = .step (.flight n) ∧ s.flights.call? n = some c ∧ c.status = .running .launched ∧
      d.path = c.key ∧ (s.act b).Reached n 1 := by
  unfold loadBy? at hd
  split at hd
  · next n =>
      obtain ⟨c, hc, hd⟩ := Option.bind_eq_some_iff.1 hd
      unfold loadOf? at hd
      split at hd
      · next hst =>
          split at hd
          · cases hd
          · next hgo =>
              have hget : s.catalog.get c.key = .ok d := by
                cases hget : s.catalog.get c.key with
                | error f => rw [hget] at hd; cases hd
                | ok d' => rw [hget] at hd; cases hd; rfl
              refine ⟨n, c, rfl, hc, hst, hs.keyed _ _ (Catalog.get_eq_ok_iff.1 hget), ?_⟩
              have hrun : s.runFlight n = s.start n c.key := by
                have hcan : c.cancelled = false := Bool.eq_false_iff.2 fun h => hgo (.inl h)
                rw [runFlight, hc]
                dsimp only
                rw [hst]
                dsimp only
                rw [hcan, if_neg (by decide)]
              show (s.runFlight n).Reached n 1
              rw [hrun]
              exact reached_start ⟨c, hc, Nat.zero_le _⟩
      · cases hd
  · cases hd

theorem Recorded.act {loaded : List String} (h : Recorded s loaded) (hs : Coherent s) (hun : Unhurried s)
    (hw : s.watch = none) {b : Action} (hb : b.Patient ∧ b.Keeps) (hadm : s.Admits b)
    (hno : NoFailure (s.act b)) :
    Recorded (s.act b) (((s.loadBy? b).map (·.path)).toList ++ loaded) := by
  have hmoves := moves_act hadm hb.1
  have hold : ∀ q ∈ loaded, ∃ n c, (s.act b).flights.call? n = some c ∧ c.key = q ∧
      1 ≤ rank c.status := fun q hq => by
    obtain ⟨n, c, hc, hk, hr⟩ := h.begun q hq
    obtain ⟨c', hc', hk', hle⟩ := rank_le_of_moves hmoves hc
    exact ⟨n, c', hc', hk'.trans hk, Nat.le_trans hr hle⟩
  have honce := h.once.act hs hun hw hb hadm hno
  have hcounted : (s.act b).stats.resolutions = (s.act b).entries.size := by
    have hbal := h.once.balanced_act hs hun hw hb
    have := h.counted
    unfold Balanced at hbal
    omega
  cases hload : s.loadBy? b with
  | none => exact ⟨honce, hold, h.nodup, hcounted⟩
  | some d =>
      obtain ⟨n, c, -, hc, hst, hpath, hreached⟩ := exists_of_loadBy? hs hload
      obtain ⟨c', hc', hfar⟩ := hreached
      obtain ⟨c'', hc'', hk, -⟩ := rank_le_of_moves hmoves hc
      obtain rfl : c' = c'' := Option.some.inj (hc'.symm.trans hc'')
      refine ⟨honce, fun q hq => ?_, List.nodup_cons.2 ⟨fun hmem => ?_, h.nodup⟩, hcounted⟩
      · rcases List.mem_cons.1 hq with rfl | hq
        · exact ⟨n, c', hc', hk.trans hpath.symm, hfar⟩
        · exact hold q hq
      · -- a flight for the path that has loaded before is this one, which has not begun
        obtain ⟨m, c₀, hc₀, hk₀, hr₀⟩ := h.begun d.path hmem
        obtain rfl : m = n := h.once.single hc₀ hc (hk₀.trans hpath)
        rw [hc] at hc₀
        cases hc₀
        rw [hst] at hr₀
        exact absurd hr₀ (by decide)

theorem outcome?_setCaller {i : RequestId} {r : Request} (hr : s.requests[i]? = some r)
    (o : Outcome Answer) : (s.setCaller i (.done o)).outcome? i = some o :=
  outcome?_eq_some_iff.2 ⟨{ r with caller := .done o }, by rw [getElem?_setCaller, if_pos rfl, hr]; rfl, rfl⟩

/-- The logical path that a target stands for. -/
def pathFor? (s : Resolver) : Target → Option String
  | .logical p => some p
  | .published q => s.logicalFor? q

/-- A request that waits for a flight that has ended takes its answer and begins nothing. -/
theorem takeAnswer_of_finished {i : RequestId} {r : Request} (hr : s.requests[i]? = some r)
    (hw : r.caller = .waiting n) (hgo : r.cancelled = false) (hc : s.flights.call? n = some c)
    {b : Answer} (hst : c.status = .finished (.result b)) :
    (s.takeAnswer i).outcome? i = some (.result (r.target.accept c.key b)) ∧
      (s.takeAnswer i).flights.started = s.flights.started := by
  have ho : s.flights.answer? r.cancelled n = some (.result b) := by
    simp [Table.answer?, hgo, hc, Call.outcome?, hst]
  have hpath : s.pathOf n = c.key := by simp [pathOf, hc]
  obtain ⟨rs, hleave, hrs, -⟩ := leave_eq s n
  obtain ⟨r', hr', -, -⟩ := hrs.symm.exists_eq hr
  have htake : s.takeAnswer i = (s.leave n).setCaller i (.done (.result (r.target.accept c.key b))) := by
    unfold takeAnswer
    simp only [hr, hw, ho, hpath]
  rw [htake, hleave]
  refine ⟨outcome?_setCaller hr' _, ?_⟩
  show (s.flights.detach n).calls.length = s.flights.calls.length
  exact Table.length_detach _ _

section Later

variable {i : RequestId} {r : Request} {e : Entry} (hr : s.requests[i]? = some r)
  (hfresh : r.caller = .fresh) (hgo : r.cancelled = false) (hp : s.pathFor? r.target = some p)
  (he : s.entries.get? p = some e)

include hr

include hfresh hgo hp in
theorem runRequest_of_fresh : s.runRequest i = s.request i r.target p := by
  unfold runRequest
  rw [hr]
  dsimp only
  rw [hfresh]
  dsimp only
  rw [hgo, if_neg (by decide)]
  cases htarget : r.target with
  | logical q =>
      rw [htarget] at hp
      cases hp
      rfl
  | published q =>
      rw [htarget] at hp
      have hq : s.logicalFor? q = some p := hp
      dsimp only
      rw [hq]

include he

/-- What is kept of a path that is not in flight is used. -/
theorem request_of_kept {d : Definition} (hget : s.catalog.get p = .ok d) (hw : s.watch = none)
    (hunmarked : e.needsCheck = false) (hidle : s.flights.slots.get? p = none) :
    (s.request i r.target p).outcome? i = some (.result (r.target.accept p (.ok e.resolved))) ∧
      (s.request i r.target p).flights.started = s.flights.started ∧
      (s.request i r.target p).stats.hits = s.stats.hits + 1 := by
  have hkept : s.kept? p = (some e.resolved, s) := by
    have hcontains : s.entries.contains p = true := by simp [PathMap.contains, he]
    have hnone : s.flights.inFlight p = false := Table.inFlight_eq_false_iff.2 hidle
    unfold kept?
    simp [hcontains, hnone, hw, he, hunmarked]
  unfold Resolver.request
  rw [hget]
  dsimp only
  rw [hkept]
  exact ⟨outcome?_setCaller (s := ({ s with
    stats := { s.stats with hits := s.stats.hits + 1 } } : Resolver).report p .cached "") hr _, rfl, rfl⟩

omit he in
include hgo in
/-- A flight that has ended but is still in its slot gives its result. -/
theorem request_of_finished {d : Definition} (hget : s.catalog.get p = .ok d)
    (hslot : s.flights.slots.get? p = some n) (hc : s.flights.call? n = some c) (hk : c.key = p)
    {b : Answer} (hst : c.status = .finished (.result b)) :
    (s.request i r.target p).outcome? i = some (.result (r.target.accept p b)) ∧
      (s.request i r.target p).flights.started = s.flights.started := by
  have hkept : s.kept? p = (none, s) := by
    have hbusy : s.flights.inFlight p = true := by simp [Table.inFlight, PathMap.contains, hslot]
    unfold kept?
    simp [hbusy]
  unfold Resolver.request
  rw [hget]
  dsimp only
  rw [hkept]
  dsimp only
  rw [Table.attach_of_some hslot]
  dsimp only
  have htakes : ∀ t : Resolver, t.requests[i]? = some { r with caller := .waiting n } →
      t.flights.call? n = some { c with waiters := c.waiters + 1 } →
      (t.takeAnswer i).outcome? i = some (.result (r.target.accept p b)) ∧
        (t.takeAnswer i).flights.started = t.flights.started := fun t ht hct =>
    hk ▸ takeAnswer_of_finished ht rfl hgo hct hst
  have hjoined := htakes ({ s with
      stats := { s.stats with misses := s.stats.misses + 1 }
      flights := s.flights.modify n fun c => { c with waiters := c.waiters + 1 } }.setCaller i
        (.waiting n))
    (by rw [getElem?_setCaller, if_pos rfl, hr]; rfl)
    ((Table.call?_modify _ _ _ _).trans (by rw [if_pos rfl, hc]; rfl))
  exact ⟨hjoined.1, hjoined.2.trans (Table.length_modify _ _ _)⟩

include hfresh hp

/-- A request for a path that has had its flight gets what the flight has left, and begins none. Once the
flight has left its slot this is a hit. -/
theorem Once.later (h : Once s) (hs : Coherent s) (hun : Unhurried s) (hw : s.watch = none) :
    (s.runRequest i).outcome? i = some (.result (r.target.accept p (.ok e.resolved))) ∧
      (s.runRequest i).flights.started = s.flights.started ∧
      (s.flights.slots.get? p = none → (s.runRequest i).stats.hits = s.stats.hits + 1) := by
  obtain ⟨m, c, hc, hk, hst⟩ := h.made he
  obtain ⟨d, hd⟩ := Catalog.contains_iff.1 (hk ▸ h.registered hc)
  have hget := Catalog.get_eq_ok_iff.2 hd
  have hgo := (hun.requests i r hr).1
  rw [runRequest_of_fresh hr hfresh hgo hp]
  cases hslot : s.flights.slots.get? p with
  | none =>
      obtain ⟨hout, hstarted, hhits⟩ :=
        request_of_kept hr he hget hw (h.lasting.unmarked p e he) hslot
      exact ⟨hout, hstarted, fun _ => hhits⟩
  | some n =>
      obtain ⟨c', hc', hk', -⟩ := hs.wired.slot p n hslot
      obtain rfl : m = n := h.single hc hc' (hk.trans hk'.symm)
      obtain ⟨hout, hstarted⟩ := request_of_finished hr hgo hget hslot hc hk hst
      exact ⟨hout, hstarted, fun hnone => by cases hnone⟩

end Later

/-- Along a run, if no flight fails. -/
theorem Tally.recorded {x : Context} {cat : Catalog} {loaded : List String} (hcat : cat.Keyed)
    (hok : ∀ a, ok a → a.Patient ∧ a.Keeps) (h : Tally ok (Resolver.make x cat none) s loaded) :
    Coherent s ∧ Unhurried s ∧ s.watch = none ∧ (NoFailure s → Recorded s loaded) := by
  induction h with
  | refl =>
      have hnothing : Recorded (Resolver.make x cat none) [] :=
        ⟨.make x cat none, fun q hq => absurd hq List.not_mem_nil, List.nodup_nil, rfl⟩
      exact ⟨.make hcat none, .make x cat none, rfl, fun _ => hnothing⟩
  | @next t loaded b _ hb hadm ih =>
      obtain ⟨hs, hun, hw, hrec⟩ := ih
      have hmoves := moves_act hadm (hok b hb).1
      have hun' : Unhurried (t.act b) := by
        generalize t.act b = u at hmoves
        induction hmoves with
        | refl => exact hun
        | tail _ hm ih => exact ih.move hm
      refine ⟨hs.act hadm, hun', (of_mem_dropOnLanding_act (p := "") hadm (hok b hb).2 hw).1,
        fun hno => ?_⟩
      exact (hrec (hno.of_moves hmoves)).act hs hun hw (hok b hb) hadm hno

namespace Diamond

/-- The four assets. -/
def catalog : Catalog :=
  ((((∅ : Catalog).add
    ⟨"top", .static (Bytes.ofText "{{: path:left :}}{{: path:right :}}"),
      ({} : Choices).options true, by decide⟩).add
    ⟨"left", .static (Bytes.ofText "{{: path:base :}}"), ({} : Choices).options true, by decide⟩).add
    ⟨"right", .static (Bytes.ofText "{{: path:base :}}"), ({} : Choices).options true, by decide⟩).add
    ⟨"base", .dynamic (.varying (fun _ => .ok (Bytes.ofText "one")) (some "gate")) none,
      ({} : Choices).options true, by decide⟩

theorem keyed_catalog : catalog.Keyed := (((Catalog.keyed_empty.add _).add _).add _).add _

/-- `top` and `base` are asked for at once, and `base` once more in the end. -/
def actions : List Action :=
  [.ask (.logical "top"), .ask (.logical "base"), .step (.request 0), .step (.request 1),
    .step (.flight 0), .step (.request 2), .step (.request 3), .step (.flight 1), .step (.flight 2),
    .step (.request 4), .step (.flight 3), .step (.request 5), .openGate "gate", .step (.flight 1),
    .step (.request 4), .step (.forget 1), .step (.request 1), .step (.request 5), .step (.flight 2),
    .step (.request 2), .step (.flight 3), .step (.request 3), .step (.flight 0), .step (.request 0),
    .ask (.logical "base")]

/-- The state after that. -/
def resolved : Resolver := ((make Sample.context catalog none).play [] actions).1

end Diamond

end HashedAssets.Resolver
