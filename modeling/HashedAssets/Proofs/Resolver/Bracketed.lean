import HashedAssets.Proofs.Resolver.Blame
import HashedAssets.Proofs.Resolver.Once
import HashedAssets.Proofs.Resolver.Reports
import Mathlib.Computability.Language

/-!
# Reports are well bracketed

What is reported on a path is a sequence of hits and of flights, each from its beginning to its end, as
long as resolutions end with a result or a failure that lies in the assets. A flight reports what it hands
to those who wait for it.

* `bracket`: what is reported at a hit, or on a flight from its beginning to its end;
* `Logged.mem_kstar`, `Logged.exists_word`, `Logged.count_pending`: what is reported on a path as a word
  of these;
* `joins?`, `Joins`: which request comes to wait for which flight, and runs in which this is noted;
* `Shares`: what these requests get; `Joins.shares`, `Joins.mem_of_isWaiting`: all of them get it, and
  nobody else waits for a flight;
* `bracketed_of_joins`: what is reported in a run.
-/

namespace HashedAssets.Resolver

open SingleFlight Relation
open scoped Computability

variable {s t u : Resolver} {i j : RequestId} {m n : CallId} {r : Request} {c : Flight} {p : String}
  {ok : Action → Prop} {callers : List (RequestId × CallId)} {sts : List Standing} {es : List Event}

/-! ### Words -/

/-- What is reported at a hit, or on a flight from its beginning to its end. -/
def bracket : Language HashedAssets.Status :=
  {[.cached]} + {[.pending]} * ({[.completed]} + {[.failed]})

theorem cached_mem_bracket : [.cached] ∈ bracket := .inl rfl

theorem completed_mem_bracket : [.pending, .completed] ∈ bracket :=
  .inr (Language.mem_mul.2 ⟨[.pending], rfl, [.completed], .inl rfl, rfl⟩)

theorem failed_mem_bracket : [.pending, .failed] ∈ bracket :=
  .inr (Language.mem_mul.2 ⟨[.pending], rfl, [.failed], .inr rfl, rfl⟩)

theorem mem_kstar_append {w v : List HashedAssets.Status} (hw : w ∈ bracket∗) (hv : v ∈ bracket) :
    w ++ v ∈ bracket∗ :=
  (kstar_mul_le_kstar : bracket∗ * bracket ≤ bracket∗) (Language.append_mem_mul hw hv)

/-- If a flight has ended, then with a result, or with a failure that lies in the assets. -/
def Reported (st : Standing) : Prop :=
  ∀ o, st = .finished o → ∃ a, o = .result a ∧ ∀ f, a = .error f → f.isOfAsset = true

theorem map_status_reportsOf {st : Standing} (hover : Over st) (hreported : Reported st) :
    (reportsOf p st).map (·.status) ∈ bracket := by
  obtain ⟨o, rfl⟩ := hover
  obtain ⟨a, rfl, ha⟩ := hreported o rfl
  cases a with
  | ok r => exact completed_mem_bracket
  | error f =>
      simp only [reportsOf, ha f rfl, if_true]
      exact failed_mem_bracket

theorem Logged.mem_kstar (h : Logged p sts es) (hover : ∀ st ∈ sts, Over st)
    (hreported : ∀ st ∈ sts, Reported st) : es.map (·.status) ∈ bracket∗ := by
  induction h with
  | nil => exact Language.nil_mem_kstar _
  | hit _ _ ih =>
      rw [List.map_append]
      exact mem_kstar_append (ih hover hreported) cached_mem_bracket
  | @flight sts _ _ hbefore st ih =>
      have hst : st ∈ sts ++ [st] := List.mem_append_right _ (List.mem_singleton_self st)
      rw [List.map_append]
      exact mem_kstar_append (ih hbefore fun st hst => hreported st (List.mem_append_left _ hst))
        (map_status_reportsOf (hover st hst) (hreported st hst))

/-- While a flight is under way the word is not complete. -/
theorem Logged.exists_word (h : Logged p sts es) (hreported : ∀ st ∈ sts, Reported st) :
    ∃ w ∈ bracket∗, es.map (·.status) <+: w := by
  cases h with
  | nil => exact ⟨[], Language.nil_mem_kstar _, List.prefix_rfl⟩
  | hit before ended => exact ⟨_, (before.hit ended).mem_kstar ended hreported, List.prefix_rfl⟩
  | @flight sts es before ended st =>
      have hbefore := before.mem_kstar ended fun st hst => hreported st (List.mem_append_left _ hst)
      have hmem := mem_kstar_append hbefore completed_mem_bracket
      rw [List.map_append]
      match st with
      | .running .launched => exact ⟨_, hmem, (List.prefix_append_right_inj _).2 (by simp [reportsOf])⟩
      | .running (.loading _) =>
          exact ⟨_, hmem, (List.prefix_append_right_inj _).2 ⟨[.completed], rfl⟩⟩
      | .running (.gathering ..) =>
          exact ⟨_, hmem, (List.prefix_append_right_inj _).2 ⟨[.completed], rfl⟩⟩
      | .finished o =>
          have hst : .finished o ∈ sts ++ [.finished o] :=
            List.mem_append_right _ (List.mem_singleton_self _)
          exact ⟨_, mem_kstar_append hbefore (map_status_reportsOf ⟨o, rfl⟩ (hreported _ hst)),
            List.prefix_rfl⟩

theorem Logged.count_pending (h : Logged p sts es) (hover : ∀ st ∈ sts, Over st)
    (hreported : ∀ st ∈ sts, Reported st) : (es.map (·.status)).count .pending = sts.length := by
  induction h with
  | nil => rfl
  | hit _ _ ih =>
      rw [List.map_append, List.count_append, ih hover hreported]
      rfl
  | @flight sts _ _ hbefore st ih =>
      have hst : st ∈ sts ++ [st] := List.mem_append_right _ (List.mem_singleton_self st)
      rw [List.map_append, List.count_append, List.length_append,
        ih hbefore fun st hst => hreported st (List.mem_append_left _ hst)]
      obtain ⟨o, rfl⟩ := hover st hst
      obtain ⟨a, rfl, ha⟩ := hreported _ hst o rfl
      cases a with
      | ok r => rfl
      | error f =>
          simp only [reportsOf, ha f rfl, if_true]
          rfl

theorem filter_reportsOf (p : String) (st : Standing) :
    (reportsOf p st).filter (·.status != .cached) = reportsOf p st :=
  List.filter_eq_self.2 fun e he => by simpa using (of_mem_reportsOf he).2

/-- But for the hits, what is reported on a path are the reports of its flights, in their order. -/
theorem Logged.filter_ne_cached (h : Logged p sts es) :
    es.filter (·.status != .cached) = sts.flatMap (reportsOf p) := by
  induction h with
  | nil => rfl
  | hit _ _ ih =>
      rw [List.filter_append, ih]
      exact List.append_nil _
  | flight _ _ st ih =>
      rw [List.filter_append, ih, filter_reportsOf, List.flatMap_append]
      simp

/-! ### Who waits for which flight -/

/-- The flight that a request comes to wait for as it goes on, if it does: a request that has not asked
yet, for a registered asset of which nothing kept can be used. -/
def joins? (s : Resolver) (i : RequestId) : Option CallId :=
  match s.requests[i]? with
  | some ⟨target, .fresh, false⟩ =>
      ((s.pathFor? target).filter fun p => s.catalog.contains p && (s.kept? p).1.isNone).map fun p =>
        (s.flights.attach p .launched).1
  | _ => none

/-- The request that comes to wait for a flight when something happens, with the flight, if any does. -/
def joinBy? (s : Resolver) : Action → Option (RequestId × CallId)
  | .step (.request i) => (s.joins? i).map fun n => (i, n)
  | _ => none

/-- A run, with the requests that have come to wait for flights, the last first, each with its flight. -/
inductive Joins (ok : Action → Prop) (s : Resolver) : Resolver → List (RequestId × CallId) → Prop
  | refl : Joins ok s s []
  | next {t : Resolver} {callers : List (RequestId × CallId)} {a : Action} : Joins ok s t callers → ok a →
      t.Admits a → Joins ok s (t.act a) ((t.joinBy? a).toList ++ callers)

theorem Joins.run (h : Joins ok s t callers) : Run ok s t := by
  induction h with
  | refl => exact .refl
  | next _ ha hadm ih => exact ih.next ha hadm

/-- The requests that come to wait for flights in the course of a list of actions, the last first. -/
def joinsOf (s : Resolver) : List Action → List (RequestId × CallId)
  | [] => []
  | a :: rest => (s.act a).joinsOf rest ++ (s.joinBy? a).toList

theorem Joins.play (h : Joins ok s t callers) {as : List Action} (has : t.Playable as)
    (hok : ∀ a ∈ as, ok a) (lost : List String) :
    Joins ok s (t.play lost as).1 (t.joinsOf as ++ callers) := by
  induction as generalizing t lost callers with
  | nil => exact h
  | cons a rest ih =>
      have hrest := ih (h.next (hok a List.mem_cons_self) has.1) has.2
        (fun b hb => hok b (List.mem_cons_of_mem _ hb)) (t.lostAfter a lost)
      rw [joinsOf, List.append_assoc]
      exact hrest

/-- A request waits for a flight, or has got what the flight has ended with, as its target accepts it. -/
def Shares (s : Resolver) (i : RequestId) (n : CallId) : Prop :=
  ∃ r c, s.requests[i]? = some r ∧ s.flights.call? n = some c ∧ (r.caller = .waiting n ∨
    ∃ a, c.status = .finished (.result a) ∧ r.caller = .done (.result (r.target.accept c.key a)))

theorem Shares.move (h : s.Shares i n) (hun : Unhurried s) (hm : Move s u) : u.Shares i n := by
  obtain ⟨r, c, hr, hc, hd⟩ := h
  obtain ⟨r', hr', ht, hcase⟩ := hm.exists_request hr
  rcases hd with hw | ⟨a, hst, hdone⟩
  · rcases hcase with hsame | hfresh | ⟨m, o, hw', hans, hdone⟩
    · obtain ⟨c', hc', -⟩ := hm.exists_call? hc
      exact ⟨r', c', hr', hc', .inl (hsame.trans hw)⟩
    · rw [hw] at hfresh; cases hfresh
    · rw [hw] at hw'; cases hw'
      obtain ⟨d, a, hd, hst, rfl⟩ := hun.answer hr hans
      rw [hc] at hd; cases hd
      obtain ⟨c', hc', hk, hst'⟩ := hm.finished hc hst
      have hpath : s.pathOf n = c.key := by simp [pathOf, hc]
      refine ⟨r', c', hr', hc', .inr ⟨a, hst', ?_⟩⟩
      rw [hdone, hpath, ht, hk]
      rfl
  · obtain ⟨c', hc', hk, hst'⟩ := hm.finished hc hst
    refine ⟨r', c', hr', hc', .inr ⟨a, hst', ?_⟩⟩
    rw [hdone] at hcase
    rcases hcase with hsame | hfresh | ⟨_, _, hw, -⟩
    · rw [hsame, ht, hk]
    · cases hfresh
    · cases hw

theorem Shares.moves (h : s.Shares i n) (hun : Unhurried s) (hm : ReflTransGen Move s u) :
    u.Shares i n := by
  induction hm with
  | refl => exact h
  | tail hbefore hm ih => exact ih.move (hun.moves hbefore) hm

/-- A request that comes to wait for a flight does so before anything else, and then takes its answer if
the flight has ended. -/
theorem exists_isWaiting_of_joins? (hj : s.joins? i = some n) :
    ∃ t, ReflTransGen Move s t ∧ t.IsWaiting i n ∧ ReflTransGen Move t (s.runRequest i) := by
  unfold joins? at hj
  split at hj
  · next target hr =>
      obtain ⟨p, hp, rfl⟩ := Option.map_eq_some_iff.1 hj
      obtain ⟨hp, hfree⟩ := Option.filter_eq_some_iff.1 hp
      obtain ⟨hreg, hnone⟩ := Bool.and_eq_true_iff.1 hfree
      obtain ⟨d, hd⟩ := Catalog.contains_iff.1 hreg
      have htarget : target.Allows p := by
        rintro q rfl
        exact Option.some.inj hp
      obtain ⟨t, hsteps, hr', heq⟩ := exists_requestSteps_join hr rfl rfl htarget
        (Catalog.get_eq_ok_iff.2 hd) (Option.isNone_iff_eq_none.1 hnone)
      have hlapses : ReflTransGen Move s (s.kept? p).2 :=
        ReflTransGen.mono (fun _ _ hl => .inl (.lapse hl)) _ _ (kept?_cases s p).1
      rw [runRequest_of_fresh hr rfl rfl hp]
      refine ⟨t, hlapses.trans (moves_of_requestSteps hsteps), ⟨_, hr', rfl⟩, ?_⟩
      exact heq ▸ moves_of_requestSteps (requestSteps_takeAnswer hr')
  · cases hj

theorem shares_of_joins? (hs : Coherent s) (hun : Unhurried s) (hj : s.joins? i = some n) :
    (s.runRequest i).Shares i n := by
  obtain ⟨t, hm, ⟨r, hr, hw⟩, hm'⟩ := exists_isWaiting_of_joins? hj
  obtain ⟨c, hc, -⟩ := (hs.moves hm).wired.waiting i r n hr hw
  exact Shares.moves ⟨r, c, hr, hc, .inl hw⟩ (hun.moves hm) hm'

/-- Whoever comes to wait for a flight gets what it ends with. -/
theorem Joins.shares (h : Joins ok s t callers) (hs : Coherent s) (hun : Unhurried s)
    (hok : ∀ a, ok a → a.Patient) : ∀ y ∈ callers, t.Shares y.1 y.2 := by
  induction h with
  | refl => exact fun y hy => by cases hy
  | @next t callers a h ha hadm ih =>
      have ht := h.run.coherent hs
      have hun' := hun.run h.run hok
      intro y hy
      rcases List.mem_append.1 hy with hnew | hold
      · cases a with
        | step x =>
            cases x with
            | request i =>
                obtain ⟨n, hj, rfl⟩ := Option.map_eq_some_iff.1 (Option.mem_toList.1 hnew)
                exact shares_of_joins? ht hun' hj
            | _ => cases hnew
        | _ => cases hnew
      · exact (ih y hold).moves hun' (moves_act hadm (hok a ha))

/-! Nobody else waits. -/

theorem not_isWaiting_setCaller (s : Resolver) (i : RequestId) (o : Outcome Answer) :
    ¬ (s.setCaller i (.done o)).IsWaiting i n := by
  rintro ⟨r, hr, hw⟩
  rw [getElem?_setCaller, if_pos rfl] at hr
  obtain ⟨r₀, -, rfl⟩ := Option.map_eq_some_iff.1 hr
  cases hw

theorem isWaiting_of_append {new : List Request} (hu : u.requests = s.requests ++ new)
    (hnew : ∀ r ∈ new, r.caller = .fresh) (hw : u.IsWaiting i n) : s.IsWaiting i n := by
  obtain ⟨r, hr, hw⟩ := hw
  rcases request_of_append (hu ▸ hr) with hr | ⟨-, hmem⟩
  · exact ⟨r, hr, hw⟩
  · rw [hnew r hmem] at hw; cases hw

theorem isWaiting_of_lapses (hl : ReflTransGen Lapse s u) (hw : u.IsWaiting i n) : s.IsWaiting i n := by
  unfold IsWaiting at hw
  rw [(frame_of_lapses hl).2.2.2] at hw
  exact hw

theorem isWaiting_of_takeAnswer (hw : (s.takeAnswer i).IsWaiting i n) : s.IsWaiting i n := by
  unfold takeAnswer at hw
  split at hw
  · exact hw
  · split at hw
    · split at hw
      · exact hw
      · exact absurd hw (not_isWaiting_setCaller _ i _)
      · exact absurd hw (not_isWaiting_setCaller _ i _)
    · exact hw

theorem isWaiting_of_request (hr : s.requests[i]? = some r) (hfresh : r.caller = .fresh)
    (hgoing : r.cancelled = false) (htarget : r.target.Allows p)
    (hw : (s.request i r.target p).IsWaiting i n) : s.catalog.contains p = true ∧
      (s.kept? p).1 = none ∧ n = (s.flights.attach p .launched).1 := by
  cases hget : s.catalog.get p with
  | error f =>
      unfold request at hw
      rw [hget] at hw
      exact absurd hw (not_isWaiting_setCaller s i _)
  | ok d =>
      cases hk : (s.kept? p).1 with
      | some v =>
          unfold request at hw
          rw [hget] at hw
          revert hw
          dsimp only
          generalize s.kept? p = y at hk
          obtain ⟨k, t⟩ := y
          obtain rfl : k = some v := hk
          exact fun hw => absurd hw (not_isWaiting_setCaller _ i _)
      | none =>
          obtain ⟨t, -, hr', heq⟩ := exists_requestSteps_join hr hfresh hgoing htarget hget hk
          rw [heq] at hw
          obtain ⟨r', hr'', hw⟩ := isWaiting_of_takeAnswer hw
          rw [hr'] at hr''; cases hr''
          cases hw
          exact ⟨Catalog.contains_of_get hget, rfl, rfl⟩

theorem joins?_of_isWaiting (hr : s.requests[i]? = some r) (hfresh : r.caller = .fresh)
    (hgoing : r.cancelled = false) (hp : s.pathFor? r.target = some p)
    (hw : (s.request i r.target p).IsWaiting i n) : s.joins? i = some n := by
  have htarget : r.target.Allows p := fun q hq => by
    rw [hq] at hp
    exact Option.some.inj hp
  obtain ⟨hreg, hnone, rfl⟩ := isWaiting_of_request hr hfresh hgoing htarget hw
  obtain ⟨target, caller, cancelled⟩ := r
  cases hfresh
  cases hgoing
  simp [joins?, hr, hp, hreg, hnone]

/-- A request that waits for a flight has come to wait for it, or has waited for it before. -/
theorem isWaiting_of_runRequest (hw : (s.runRequest i).IsWaiting i n) :
    s.IsWaiting i n ∨ s.joins? i = some n := by
  unfold runRequest at hw
  split at hw
  · exact .inl hw
  · next r hr =>
      split at hw
      · next hfresh =>
          split at hw
          · exact absurd hw (not_isWaiting_setCaller s i _)
          · next hcan =>
              have hgoing : r.cancelled = false := by simpa using hcan
              split at hw
              · next p hp => exact .inr (joins?_of_isWaiting hr hfresh hgoing (by rw [hp]; rfl) hw)
              · next q hq =>
                  split at hw
                  · next p hp => exact .inr (joins?_of_isWaiting hr hfresh hgoing (by rw [hq]; exact hp) hw)
                  · exact absurd hw (not_isWaiting_setCaller s i _)
      · exact .inl (isWaiting_of_takeAnswer hw)
      · exact .inl hw

theorem isWaiting_of_act {a : Action} (hadm : s.Admits a) (hp : a.Patient)
    (hw : (s.act a).IsWaiting i n) : s.IsWaiting i n ∨ s.joinBy? a = some (i, n) := by
  cases a with
  | ask t => exact .inl (isWaiting_of_append rfl (fun r hr => by rw [List.mem_singleton.1 hr]) hw)
  | cancel i => exact hp.elim
  | openGate g => exact .inl hw
  | closeGate g => exact .inl hw
  | invalidate p => exact .inl (isWaiting_of_lapses (lapses_invalidate s p) hw)
  | clear => exact .inl (isWaiting_of_lapses (lapses_clear s) hw)
  | step x =>
      cases x with
      | forget m => exact .inl hw
      | flight m =>
          have hsteps := flightSteps_runFlight s m
          have hw' : (s.runFlight m).IsWaiting i n := hw
          left
          -- the flight makes requests, which wait for nobody yet, and leaves the others as they are
          generalize s.runFlight m = u at hsteps hw'
          induction hsteps with
          | refl => exact hw'
          | tail _ hm ih =>
              refine ih ?_
              rcases hm with hq | ⟨c, -, hm⟩
              · cases hq; exact hw'
              · obtain ⟨new, hrs, hnew⟩ := hm.requests
                exact isWaiting_of_append hrs hnew hw'
      | request j =>
          by_cases hji : i = j
          · subst hji
            exact (isWaiting_of_runRequest hw).imp_right fun hj => by simp [joinBy?, hj]
          · obtain ⟨t, hl, -, hsteps⟩ := exists_requestSteps_runRequest s j
            have hw' : (s.runRequest j).IsWaiting i n := hw
            refine .inl (isWaiting_of_lapses hl ?_)
            generalize s.runRequest j = u at hsteps hw'
            induction hsteps with
            | refl => exact hw'
            | tail _ hm ih =>
                refine ih ?_
                rcases hm with hq | ⟨r, -, hm⟩
                · cases hq; exact hw'
                · obtain ⟨r', hr', hw'⟩ := hw'
                  obtain ⟨r₀, hr₀, hc⟩ := hm.caller_of_ne' hji hr'
                  exact ⟨r₀, hr₀, hc.trans hw'⟩

theorem Joins.mem_of_isWaiting (h : Joins ok s t callers) (hok : ∀ a, ok a → a.Patient)
    (hs : ∀ i n, ¬ s.IsWaiting i n) (hw : t.IsWaiting i n) : (i, n) ∈ callers := by
  induction h with
  | refl => exact absurd hw (hs i n)
  | next _ ha hadm ih =>
      rcases isWaiting_of_act hadm (hok _ ha) hw with hold | hnew
      · exact List.mem_append_right _ (ih hold)
      · exact List.mem_append_left _ (Option.mem_toList.2 hnew)

/-! ### A sample

`a` refers to `b`, and is asked for twice at once and once more when it is kept. Then the source of `b`
changes, and `a` is asked for again: what is kept of it is checked, and this fails with the source of
`b`. -/

namespace Lapse

/-- All that happens then. -/
def reported : List Action :=
  [.ask (.logical "a"), .ask (.logical "a"), .step (.request 0), .step (.request 1), .step (.flight 0),
    .step (.request 2), .step (.flight 1), .step (.request 2), .step (.forget 1), .step (.flight 0),
    .step (.request 0), .step (.request 1), .step (.forget 0), .ask (.logical "a"), .step (.request 3),
    .invalidate "b", .ask (.logical "a"), .step (.request 4), .step (.flight 2), .step (.request 5),
    .step (.flight 3), .step (.request 5), .step (.forget 3), .step (.flight 2), .step (.request 4),
    .step (.forget 2)]

/-- The state after that. -/
def recorded : Resolver := ((make context catalog none).play [] reported).1

theorem joins_recorded : Joins Action.Patient (make context catalog none) recorded
    [(5, 3), (4, 2), (2, 1), (1, 0), (0, 0)] := by
  have hplayable : (make context catalog none).Playable reported := by decide +kernel
  have hok : ∀ a ∈ reported, a.Patient := by simp [reported, Action.Patient]
  have h := Joins.refl.play hplayable hok []
  rw [show (make context catalog none).joinsOf reported =
    [(5, 3), (4, 2), (2, 1), (1, 0), (0, 0)] by decide +kernel] at h
  exact h

/-- Whether a failure with which a flight has ended lies in the assets. -/
def isReported (c : Flight) : Bool :=
  match c.status with
  | .finished (.result (.error f)) => f.isOfAsset
  | _ => true

theorem isOfAsset_recorded (c : Flight) (f : Failure) (hc : recorded.flights.call? n = some c)
    (hst : c.status = .finished (.result (.error f))) : f.isOfAsset = true := by
  have hall : ∀ c ∈ recorded.flights.calls, isReported c = true := by decide +kernel
  have hc' := hall c (List.mem_of_getElem? hc)
  rw [isReported, hst] at hc'
  exact hc'

end Lapse

/-- **Reports are well bracketed.** Patient callers may ask, and sources may change, in any order. As long
as resolutions end with a result or with a failure that lies in the assets, what has been reported on a
path is the beginning of a word of hits and of flights from their beginning to their end. While no flight
for the path is in flight it is such a word, in which as many flights begin as have begun for the path.
But for the hits, all reports are those of the flights for the path, in their order: a flight that ends
with a result reports the public path of this result, and all who have come to wait for the flight get
it. -/
theorem bracketed_of_joins {x : Context} {cat : Catalog} {watch : Option Watch} (hcat : cat.Keyed)
    (hok : ∀ a, ok a → a.Patient) (h : Joins ok (make x cat watch) s callers)
    (hends : ∀ n c f, s.flights.call? n = some c → c.status = .finished (.result (.error f)) →
      f.isOfAsset = true) :
    (∀ p,
      (∃ w ∈ bracket∗, (s.reports p).map (·.status) <+: w) ∧
      (s.flights.inFlight p = false → (s.reports p).map (·.status) ∈ bracket∗ ∧
        ((s.reports p).map (·.status)).count .pending = (s.flightsFor p).length) ∧
      (s.reports p).filter (·.status != .cached) =
        (s.flightsFor p).flatMap fun c => reportsOf p c.status) ∧
    (∀ y ∈ callers, s.Shares y.1 y.2) ∧ ∀ i n, s.IsWaiting i n → (i, n) ∈ callers := by
  obtain ⟨hs, hun, hseq⟩ := h.run.sequenced hcat hok
  have hreported : ∀ p, ∀ st ∈ (s.flightsFor p).map (·.status), Reported st := by
    intro p st hst o ho
    obtain ⟨c, hc, rfl⟩ := List.mem_map.1 hst
    obtain ⟨n, hn⟩ := List.mem_iff_getElem?.1 (List.mem_filter.1 hc).1
    cases o with
    | cancelled => exact absurd ho (hun.calls n c hn).2
    | result a => exact ⟨a, rfl, fun f hf => hends n c f hn (hf ▸ ho)⟩
  refine ⟨fun p => ⟨(hseq p).exists_word (hreported p), fun hidle => ?_, ?_⟩,
    h.shares (.make hcat watch) (.make x cat watch) hok, fun i n hw => h.mem_of_isWaiting hok ?_ hw⟩
  · have hover := over_of_idle hs hun (Table.inFlight_eq_false_iff.1 hidle)
    refine ⟨(hseq p).mem_kstar hover (hreported p), ?_⟩
    rw [(hseq p).count_pending hover (hreported p), List.length_map]
  · rw [(hseq p).filter_ne_cached, List.flatMap_map]
  · rintro i n ⟨r, hr, -⟩
    cases hr

/-- In the sample: two flights and a hit are reported on `a`, and those who have waited for a flight have
got its answer. -/
theorem bracketed_recorded :
    (Lapse.recorded.reports "a").map (·.status) =
      [.pending, .completed, .cached, .pending, .failed] ∧
    (Lapse.recorded.reports "a").map (·.status) ∈ bracket∗ ∧
    (Lapse.recorded.flightsFor "a").length = 2 ∧
    ∀ y ∈ [(5, 3), (4, 2), (2, 1), (1, 0), (0, 0)], Lapse.recorded.Shares y.1 y.2 := by
  obtain ⟨hreports, hshares, -⟩ := bracketed_of_joins Lapse.keyed_catalog (fun _ h => h)
    Lapse.joins_recorded fun _ => Lapse.isOfAsset_recorded
  obtain ⟨-, hidle, -⟩ := hreports "a"
  have hstatus : (Lapse.recorded.reports "a").map (·.status) =
      [.pending, .completed, .cached, .pending, .failed] := by decide +kernel
  obtain ⟨hword, hcount⟩ := hidle (by decide +kernel)
  rw [hstatus] at hcount
  exact ⟨hstatus, hword, hcount.symm, hshares⟩

end HashedAssets.Resolver
