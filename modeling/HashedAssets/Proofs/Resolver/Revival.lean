import HashedAssets.Proofs.Resolver.Agreement
import HashedAssets.Proofs.Resolver.Meanwhile

/-!
# Results that come back

When the source of an asset in flight changes, the result of its flight is not to be kept, and what was
kept before is not to be used again. Mostly it is so: until a flight for the asset has read the source
again, nothing is kept for it. But a kept result that is being checked outlives a check that fails.

* `Unread`, `Forgotten`: nothing of an asset is left, until its source is read;
* `forgotten_iff`: nothing is left later if nothing is left now;
* `forgotten_iff_of_run`: what is left when an asset in flight was invalidated and the flight is over;
* `exists_run_not_forgotten`: a result comes back.
-/

namespace HashedAssets.Resolver

open SingleFlight Relation

variable {ok : Action → Prop} {s t u : Resolver} {m n n₀ : CallId} {c : Flight} {p : String}

/-- Something happens, but no flight for a path comes to have read its source by it. -/
def Unread (ok : Action → Prop) (p : String) (s t : Resolver) : Prop :=
  ∃ a, ok a ∧ s.Admits a ∧ t = s.act a ∧ ∀ n c c', a = .step (.flight n) →
    s.flights.call? n = some c → c.key = p → t.flights.call? n = some c' →
    turn (s.entries.contains p) c c' ≠ some false

/-- Until a flight for a path has read its source, nothing is kept for it, and no flight for it that
begins later has a result. -/
def Forgotten (ok : Action → Prop) (p : String) (s : Resolver) : Prop :=
  ∀ t, ReflTransGen (Unread ok p) s t → t.entries.get? p = none ∧
    ∀ n c r, s.flights.calls.length ≤ n → t.flights.call? n = some c → c.key = p →
      c.status ≠ .finished (.result (.ok r))

/-! ### Until the source is read -/

/-- Nothing is kept for a path, no flight that goes on for it has read its source, and those from a given
number on have no result. -/
structure Absent (s : Resolver) (p : String) (n₀ : CallId) : Prop where
  entry : s.entries.get? p = none
  unread : ∀ n c a es kept children, s.flights.call? n = some c → c.key = p → c.cancelled = false →
    c.status ≠ .running (.gathering a es kept children)
  answers : ∀ n c r, n₀ ≤ n → s.flights.call? n = some c → c.key = p →
    c.status ≠ .finished (.result (.ok r))

theorem Absent.shift (h : Absent s p n₀) (hm : Shift s u) : Absent u p n₀ where
  entry := hm.get?_eq_none h.entry
  unread n c a es kept children hc hk hgo hst := by
    rcases hm.call? hc with ⟨c₀, hc₀, hk₀, hst₀, hgo₀⟩ | ⟨-, hl⟩
    · exact h.unread n c₀ a es kept children hc₀ (hk₀.trans hk) (hgo₀ hgo) (hst₀.trans hst)
    · rw [hst] at hl; cases hl
  answers n c r hn hc hk hst := by
    rcases hm.call? hc with ⟨c₀, hc₀, hk₀, hst₀, -⟩ | ⟨-, hl⟩
    · exact h.answers n c₀ r hn hc₀ (hk₀.trans hk) (hst₀.trans hst)
    · rw [hst] at hl; cases hl

/-- A flight that has read its source, or has a result, has not come there without reading. -/
theorem turn_of_loads {c : Flight} {w : Phase} {st : SingleFlight.Status Phase Answer}
    (hst : c.status = .running w) (hw : w.loads false = true)
    (hto : (∃ a es kept children, st = .running (.gathering a es kept children)) ∨
      ∃ r, st = .finished (.result (.ok r))) : turn false c { c with status := st } = some false := by
  rcases hto with ⟨a, es, kept, children, rfl⟩ | ⟨r, rfl⟩
  · cases w with
    | launched => simp [turn, hst, Phase.loads]
    | loading _ => simp [turn, hst, Phase.loads]
    | gathering _ _ _ _ => cases hw
  · cases w with
    | launched => simp [turn, hst, Phase.loads]
    | loading _ => simp [turn, hst, Phase.loads]
    | gathering _ _ _ _ => cases hw

/-- A flight that is not under way does nothing any more. -/
theorem runFlight_eq_self (h : ∀ c, s.flights.call? n = some c → c.isRunning = false) :
    s.runFlight n = s := by
  unfold runFlight
  cases hc : s.flights.call? n with
  | none => rfl
  | some c =>
      obtain ⟨o, hst⟩ := isRunning_eq_false_iff.1 (h c hc)
      simp only [hst]

/-- Where nothing is kept for its path, a flight that does not read its source comes neither to wait nor to a
result. -/
theorem Absent.not_read (h : Absent s p n₀) {c : Flight} {st : SingleFlight.Status Phase Answer}
    (hc : s.flights.call? n = some c) (hr : c.isRunning = true) (hk : c.key = p)
    (hgo : c.cancelled = false) (hturn : turn false c { c with status := st } ≠ some false) :
    (∀ a es kept children, st ≠ .running (.gathering a es kept children)) ∧
      ∀ r, st ≠ .finished (.result (.ok r)) := by
  obtain ⟨w, hst⟩ := isRunning_iff.1 hr
  have hw : w.loads false = true := by
    cases w with
    | launched => rfl
    | loading _ => rfl
    | gathering a es kept children => exact absurd hst (h.unread n c a es kept children hc hk hgo)
  exact ⟨fun a es kept children he => hturn (turn_of_loads hst hw (.inl ⟨a, es, kept, children, he⟩)),
    fun r he => hturn (turn_of_loads hst hw (.inr ⟨r, he⟩))⟩

theorem Absent.flight (h : Absent s p n₀) (hs : Coherent s)
    (hturn : ∀ c c', s.flights.call? n = some c → c.key = p →
      (s.runFlight n).flights.call? n = some c' → turn (s.entries.contains p) c c' ≠ some false) :
    Absent (s.runFlight n) p n₀ := by
  have hcontains : s.entries.contains p = false := by simp [PathMap.contains, h.entry]
  rw [hcontains] at hturn
  by_cases hrun : ∃ c, s.flights.call? n = some c ∧ c.isRunning = true
  · obtain ⟨c, hc, hr⟩ := hrun
    have hsteps := flightSteps_runFlight s n
    obtain ⟨-, hcases⟩ := leaves_of_flightSteps hsteps hs hc hr
    -- what the flight comes to, if it is one for the path
    have hnew : ∀ {c'}, (s.runFlight n).flights.call? n = some c' → c'.key = p →
        (c'.cancelled = false → ∀ a es kept children,
          c'.status ≠ .running (.gathering a es kept children)) ∧
        ∀ r, c'.status ≠ .finished (.result (.ok r)) := fun {c'} hc' hk => by
      obtain ⟨st, hst, -⟩ := call?_of_flightSteps hsteps hc
      rw [hst] at hc'; cases hc'
      have hnot := fun hgo => h.not_read hc hr hk hgo (hturn c _ hc hk hst)
      refine ⟨fun hgo => (hnot hgo).1, fun r he => ?_⟩
      rcases hcases with ⟨w, hcu, -⟩ | ⟨o, hcu, -, -, hgo⟩
      · rw [hst] at hcu; cases hcu
        cases he
      · rw [hst] at hcu; cases hcu
        exact (hnot (hgo r (by cases he; rfl))).2 r he
    refine ⟨?_, fun m c' a es kept children hc' hk hgo hst => ?_, fun m c' r hm hc' hk hst => ?_⟩
    · rcases hcases with ⟨w, -, he, -⟩ | ⟨o, hcu, hl, hother, -⟩
      · rw [he]; exact h.entry
      · by_cases hk : c.key = p
        · unfold Leaves at hl
          split at hl
          · next r => exact absurd rfl ((hnew hcu hk).2 r)
          · rw [← hk, hl, hk]; exact h.entry
        · rw [hother p fun he => hk he.symm]; exact h.entry
    · by_cases hmn : m = n
      · subst hmn
        exact (hnew hc' hk).1 hgo a es kept children hst
      · rw [call?_of_flightSteps_of_ne hsteps hmn] at hc'
        exact h.unread m c' a es kept children hc' hk hgo hst
    · by_cases hmn : m = n
      · subst hmn
        exact (hnew hc' hk).2 r hst
      · rw [call?_of_flightSteps_of_ne hsteps hmn] at hc'
        exact h.answers m c' r hm hc' hk hst
  · rwa [runFlight_eq_self fun c hc => by
      rw [← Bool.not_eq_true]
      exact fun hr => hrun ⟨c, hc, hr⟩]

theorem Absent.unread_step (h : Absent s p n₀) (hs : Coherent s) (hm : Unread ok p s t) :
    Absent t p n₀ := by
  obtain ⟨a, -, ha, rfl, hturn⟩ := hm
  rcases act_cases ha with ⟨m, rfl⟩ | hshifts | ⟨rs, hrs, -⟩
  · exact h.flight hs fun c c' hc hk hc' => hturn m c c' rfl hc hk hc'
  · generalize s.act a = u at hshifts
    clear hturn
    induction hshifts with
    | refl => exact h
    | tail _ hm ih => exact ih.shift hm
  · rw [hrs]
    exact ⟨h.entry, h.unread, h.answers⟩

/-- Nothing is left later if nothing is left now, and no flight that goes on has read the source. -/
theorem forgotten_iff (hs : Coherent s)
    (hunread : ∀ n c a es kept children, s.flights.call? n = some c → c.key = p →
      c.cancelled = false → c.status ≠ .running (.gathering a es kept children)) :
    Forgotten ok p s ↔ s.entries.get? p = none := by
  refine ⟨fun h => (h s .refl).1, fun hp t ht => ?_⟩
  have habsent : Absent s p s.flights.calls.length :=
    ⟨hp, hunread, fun n c r hn hc => absurd (Table.lt_of_call?_eq_some hc) (Nat.not_lt.2 hn)⟩
  have hall : Coherent t ∧ Absent t p s.flights.calls.length := by
    induction ht with
    | refl => exact ⟨hs, habsent⟩
    | tail _ hm ih =>
        refine ⟨?_, ih.2.unread_step ih.1 hm⟩
        obtain ⟨a, -, ha, rfl, -⟩ := hm
        exact ih.1.act ha
  exact ⟨hall.2.entry, hall.2.answers⟩

/-! ### An asset in flight that is invalidated -/

/-- In a slot of a flight that is not under way any more, no other flight goes on. -/
theorem not_gathering_of_slot (hs : Coherent s) (hslot : s.flights.slots.get? p = some n)
    (hn : ¬ s.UnderWay p n) (m : CallId) (c : Flight) (a : Prepared) (es : List Edge)
    (kept : Option Resolved) (children : List RequestId) (hc : s.flights.call? m = some c)
    (hk : c.key = p) (hgo : c.cancelled = false) :
    c.status ≠ .running (.gathering a es kept children) := by
  intro hst
  have hm := hs.underWay hc (isRunning_of_status hst) hgo
  rw [hk] at hm
  have hmn : m = n := Option.some.inj (hm.1.symm.trans hslot)
  exact hn (hmn ▸ hm)

/-- Nor does one when a flight has lost its slot to nobody. -/
theorem not_gathering_of_stop (hs : Coherent s) (h : s.UnderWay p n) {a : Action} (ha : s.Admits a)
    (hf : ∀ m, a ≠ .step (.flight m)) (hslot : (s.act a).flights.slots.get? p ≠ some n) (m : CallId)
    (c : Flight) (b : Prepared) (es : List Edge) (kept : Option Resolved) (children : List RequestId)
    (hc : (s.act a).flights.call? m = some c) (hk : c.key = p) (hgo : c.cancelled = false) :
    c.status ≠ .running (.gathering b es kept children) := by
  intro hst
  have hm := (hs.act ha).underWay hc (isRunning_of_status hst) hgo
  rw [hk] at hm
  have hmn : m ≠ n := fun he => hslot (he ▸ hm.1)
  rcases act_cases ha with ⟨k, hak⟩ | hshifts | ⟨rs, hrs, -⟩
  · exact hf k hak
  · rcases call?_of_shifts hshifts hc with ⟨c₀, hc₀, hk₀, hst₀, hgo₀⟩ | hl
    · exact hmn (h.eq_of_call hs hc₀ (hk₀.trans hk) (isRunning_of_status (hst₀.trans hst)) (hgo₀ hgo))
    · rw [hst] at hl; cases hl
  · rw [hrs] at hc
    exact hmn (h.eq_of_call hs hc hk (isRunning_of_status hst) hgo)

/-- When a flight is over, then nothing is left of its asset just if it has ended with a result that was to
be dropped, or it has no result and nothing was kept. -/
theorem UnderWay.forgotten_iff (h : s.UnderWay p n) (hs : Coherent s) {ok' : Action → Prop}
    (hrun : Run ok' s t) (hn : t.UnderWay p n) {a : Action} (ha : t.Admits a)
    (hover : ¬ (t.act a).UnderWay p n) : Forgotten ok p (t.act a) ↔
      (∃ r, (t.act a).Yields n r) ∧ p ∈ t.dropOnLanding ∨
        (¬ ∃ r, (t.act a).Yields n r) ∧ s.entries.get? p = none := by
  have ht := hrun.coherent hs
  have hkept := (hrun.meanwhile hs h hn).kept
  have hnone : ∀ {e : Option Entry}, e.isSome = (t.entries.get? p).isSome →
      (e = none ↔ s.entries.get? p = none) := fun {e} he => by
    rw [← Option.isNone_iff_eq_none, ← Option.isNone_iff_eq_none, ← Option.not_isSome,
      ← Option.not_isSome, he, hkept]
  rcases hn.over ht ha hover with ⟨-, c, o, hc, hk, hst, hslots, hl⟩ | ⟨⟨c, hc, hr⟩, hlost, hf, hsome⟩
  · rw [Resolver.forgotten_iff (ht.act ha)
      (not_gathering_of_slot (ht.act ha) (by rw [hslots]; exact hn.1) hover)]
    have hyields : ∀ r, (t.act a).Yields n r ↔ o = .result (.ok r) := fun r => by
      constructor
      · rintro ⟨c', hc', hst'⟩
        rw [hc] at hc'; cases hc'
        rw [hst] at hst'
        exact SingleFlight.Status.finished.inj hst'
      · rintro rfl
        exact ⟨c, hc, hst⟩
    simp only [hyields]
    match o with
    | .result (.ok r) =>
        rcases hl.of_ok with ⟨hd, hnone⟩ | ⟨hd, e, he, -⟩
        · simp [hnone, hd]
        · simp [he, hd]
    | .result (.error f) =>
        have hl' : (t.act a).entries.get? p = t.entries.get? p := hl
        simp [hnone (congrArg Option.isSome hl')]
    | .cancelled =>
        have hl' : (t.act a).entries.get? p = t.entries.get? p := hl
        simp [hnone (congrArg Option.isSome hl')]
  · rw [Resolver.forgotten_iff (ht.act ha) (not_gathering_of_stop ht hn ha hf hlost)]
    have hyields : ¬ ∃ r, (t.act a).Yields n r := by
      rintro ⟨r, c', hc', hst'⟩
      rw [hc] at hc'; cases hc'
      exact not_finished_of_isRunning hr _ hst'
    simp [hyields, hnone hsome]

/-! ### A sample

`a` refers to `b`, and the source of each may change. When `b` has changed, the kept result of `a` is
checked; while this goes on `a` changes too; then the check fails with the source of `b`. -/

namespace Revival

/-- What the source of `a` gives. -/
def version : Nat → Except LoadFault Bytes
  | 0 => .ok (Bytes.ofText "{{: path:b :}}old")
  | _ => .ok (Bytes.ofText "{{: path:b :}}new")

/-- What the source of `b` gives. -/
def outage : Nat → Except LoadFault Bytes
  | 1 => .error (.reported ⟨"OSError", [.text "down"]⟩)
  | _ => .ok (Bytes.ofText "one")

/-- The two assets. -/
def catalog : Catalog :=
  ((∅ : Catalog).add
    ⟨"a", .dynamic (.varying version none) none, ({} : Choices).options true, Pair.a_ne_empty⟩).add
    ⟨"b", .dynamic (.varying outage none) none, ({} : Choices).options true, Pair.b_ne_empty⟩

theorem keyed_catalog : catalog.Keyed := (Catalog.keyed_empty.add _).add _

/-- The asset `a` is resolved; the source of `b` changes; `a` is asked for again. -/
def first : List Action :=
  [.ask (.logical "a"), .step (.request 0), .step (.flight 0), .step (.request 1),
    .step (.flight 1), .step (.request 1), .step (.forget 1), .step (.flight 0),
    .step (.request 0), .step (.forget 0), .invalidate "b", .ask (.logical "a"),
    .step (.request 2)]

/-- The check asks for `b`, whose source fails. -/
def second : List Action :=
  [.step (.flight 2), .step (.request 3), .step (.flight 3), .step (.request 3),
    .step (.forget 3)]

/-- What is asked for once more is checked once more, and used again. -/
def third : List Action :=
  [.step (.request 2), .step (.forget 2), .step (.request 4), .step (.flight 4),
    .step (.request 5), .step (.flight 5), .step (.request 5), .step (.forget 5),
    .step (.flight 4), .step (.request 4), .step (.forget 4)]

/-- The state in which the kept result of `a` is about to be checked. -/
def checking : Resolver := ((make Sample.context catalog none).play [] first).1

/-- The state in which the source of `a` has changed since, and the check is about to fail. -/
def failing : Resolver := ((checking.invalidate "a").2.play [] second).1

/-- The state in which the check has failed. -/
def failed : Resolver := failing.act (.step (.flight 2))

/-- The state in which `a` has been asked for once more. -/
def revived : Resolver := ((failed.ask (.logical "a")).2.play [] third).1

/-- All this can happen. -/
theorem playable : (make Sample.context catalog none).Playable first ∧
    (checking.invalidate "a").2.Playable second ∧ (failed.ask (.logical "a")).2.Playable third := by
  decide +kernel

theorem run_checking : Run Action.Patient (make Sample.context catalog none) checking :=
  (Course.refl.play playable.1 (by simp [first, Action.Patient])).run

theorem run_failing : Run Action.Patient (checking.invalidate "a").2 failing :=
  (Course.refl.play playable.2.1 (by simp [second, Action.Patient])).run

theorem run_revived : Run Action.Internal (failed.ask (.logical "a")).2 revived :=
  (Course.refl.play playable.2.2 (by simp [third, Action.Internal])).run

end Revival

/-- The result that a request has ended with. -/
def result? (s : Resolver) (i : RequestId) : Option Resolved :=
  match s.outcome? i with
  | some (.result (.ok r)) => some r
  | _ => none

theorem outcome?_of_result? {i : RequestId} {r : Resolved} (h : s.result? i = some r) :
    s.outcome? i = some (.result (.ok r)) := by
  unfold result? at h
  split at h
  · next hr => cases h; exact hr
  · cases h

/-- When an asset in flight is invalidated and its flight is over, then nothing is left of it just if the
flight has ended with a result that was still to be dropped, or it has no result and nothing was kept.
The result is to be dropped, unless an earlier flight for the asset, which had been asked to stop, has
ended meanwhile. Where the flight had ended before, but was still in its slot, what was kept is left. -/
theorem forgotten_iff_of_run {x : Context} {cat : Catalog} {watch : Option Watch} (hcat : cat.Keyed)
    (h : Run ok (make x cat watch) s) (hslot : s.flights.slots.get? p = some n) :
    (s.UnderWay p n → ∀ t a, Run ok (s.invalidate p).2 t → t.UnderWay p n → t.Admits a →
      ¬ (t.act a).UnderWay p n →
      (Forgotten ok p (t.act a) ↔
        (∃ r, (t.act a).Yields n r) ∧ p ∈ t.dropOnLanding ∨
          (¬ ∃ r, (t.act a).Yields n r) ∧ s.entries.get? p = none) ∧
      (p ∈ t.dropOnLanding ∨ ∃ k, s.Stopped p k ∧ t.Ended k)) ∧
    (¬ s.UnderWay p n → (Forgotten ok p (s.invalidate p).2 ↔ s.entries.get? p = none)) := by
  have hs := h.coherent (.make hcat watch)
  have hreg := h.registered hcat hslot
  have hbusy : s.flights.slots.get? p ≠ none := by simp [hslot]
  have hflights := flights_invalidate s p
  have hs₀ : Coherent (s.invalidate p).2 := hs.act (a := .invalidate p) trivial
  have hentry : (s.invalidate p).2.entries.get? p = s.entries.get? p := by
    rw [entries_invalidate_get? hreg, if_neg fun h => hbusy h.2,
      if_neg fun h => not_mem_affected h (self_mem_affected s p)]
  have hnoted : p ∈ (s.invalidate p).2.dropOnLanding :=
    (mem_dropOnLanding_invalidate hreg).2 (.inr ⟨self_mem_affected s p, hbusy⟩)
  refine ⟨fun hn t a hrun hn' ha hover => ?_, fun hn => ?_⟩
  · have hn₀ : (s.invalidate p).2.UnderWay p n := by
      unfold UnderWay
      rw [hflights]
      exact hn
    rw [hn₀.forgotten_iff hs₀ hrun hn' ha hover, hentry]
    refine ⟨.rfl, ((hrun.meanwhile hs₀ hn₀ hn').noted hnoted).imp_right
      fun ⟨k, ⟨c, hc, hrest⟩, he⟩ => ⟨k, ⟨c, ?_, hrest⟩, he⟩⟩
    rwa [hflights] at hc
  · have hn₀ : ¬ (s.invalidate p).2.UnderWay p n := by
      unfold UnderWay
      rw [hflights]
      exact hn
    rw [forgotten_iff hs₀ (not_gathering_of_slot hs₀ (by rw [hflights]; exact hslot) hn₀), hentry]

/-- With the check that fails: it has no result, and what was kept is left. -/
theorem forgotten_failed_iff : Forgotten Action.Patient "a" Revival.failed ↔
    (∃ r, Revival.failed.Yields 2 r) ∧ "a" ∈ Revival.failing.dropOnLanding ∨
      (¬ ∃ r, Revival.failed.Yields 2 r) ∧ Revival.checking.entries.get? "a" = none :=
  ((forgotten_iff_of_run Revival.keyed_catalog Revival.run_checking (by decide +kernel)).1
    (by decide +kernel) Revival.failing (.step (.flight 2)) Revival.run_failing (by decide +kernel)
    (by decide +kernel) (by decide +kernel)).1

/-- What was kept of an asset may come back though the asset was invalidated in flight: the next request
ends with the same result as the first, and the source has been read only once. -/
theorem exists_run_not_forgotten : ∃ s t a,
    Run Action.Patient (make Sample.context Revival.catalog none) s ∧ s.UnderWay "a" 2 ∧
    Run Action.Patient (s.invalidate "a").2 t ∧ t.UnderWay "a" 2 ∧ t.Admits a ∧
    ¬ (t.act a).UnderWay "a" 2 ∧ ¬ Forgotten Action.Patient "a" (t.act a) ∧
    ∃ u r, Run Action.Internal ((t.act a).ask (.logical "a")).2 u ∧
      s.outcome? 0 = some (.result (.ok r)) ∧
      u.outcome? (t.act a).requests.length = some (.result (.ok r)) ∧
      u.catalog.calls.get? "a" = some 1 := by
  refine ⟨Revival.checking, Revival.failing, .step (.flight 2), Revival.run_checking,
    by decide +kernel, Revival.run_failing, by decide +kernel, by decide +kernel, by decide +kernel,
    fun h => ?_, Revival.revived, ?_⟩
  · have hkept : Revival.failed.entries.contains "a" = true := by decide +kernel
    have hnone : Revival.failed.entries.get? "a" = none := (h _ .refl).1
    simp [PathMap.contains, hnone] at hkept
  · have hsome : (Revival.checking.result? 0).isSome = true := by decide +kernel
    obtain ⟨r, hr⟩ := Option.isSome_iff_exists.1 hsome
    have hsame : Revival.revived.result? Revival.failed.requests.length
        = Revival.checking.result? 0 := by decide +kernel
    exact ⟨r, Revival.run_revived, outcome?_of_result? hr, outcome?_of_result? (hsame.trans hr),
      by decide +kernel⟩

end HashedAssets.Resolver
