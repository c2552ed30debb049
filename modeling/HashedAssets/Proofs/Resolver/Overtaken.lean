import HashedAssets.Proofs.Resolver.Labels
import HashedAssets.Proofs.Resolver.Revival
import HashedAssets.Proofs.Resolver.Sequential

/-!
# Results that are overtaken

A flight takes time, and what it has got from other flights may become outdated before it ends. An
invalidation is remembered for the flights that it finds on the way from the changed asset along
includes; for all other flights it is lost.

* `of_mem_dropOnLanding_of_run`: what is to be dropped when nothing is invalidated any more;
* `KeepsOld`, `keepsOld_iff_of_run`: flights that an invalidation finds on its way along references;
* `includer_unmarked_iff_of_course`: flights that come to include an asset in flight later on;
* `exists_run_keepsOld`, `exists_run_includer_unmarked`: results that stay, though they are outdated.
-/

namespace HashedAssets.Resolver

open SingleFlight Relation

variable {ok : Action → Prop} {s t u : Resolver} {m n : CallId} {f : Flight} {p q : String}
  {r v : Resolved} {i j : RequestId} {a : Action}

/-! ### What is to be dropped -/

/-- Whether an action makes nothing outdated. -/
def Action.Keeps : Action → Prop
  | .invalidate _ => False
  | .clear => False
  | _ => True

theorem Advance.of_mem_dropOnLanding (hm : Advance s u) (hp : p ∈ u.dropOnLanding) :
    p ∈ s.dropOnLanding := by
  cases hm with
  | calm hm =>
      cases hm with
      | quiet hq => cases hq; exact hp
      | request _ hm => cases hm <;> exact hp
  | forget _ _ => exact hp
  | flight _ hm => exact hm.of_mem_dropOnLanding hp

theorem of_mem_dropOnLanding_act (ha : s.Admits a) (hkeeps : a.Keeps) (hw : s.watch = none) :
    (s.act a).watch = none ∧ (p ∈ (s.act a).dropOnLanding → p ∈ s.dropOnLanding) := by
  by_cases hi : a.Internal
  · have hmoves := advances_act ha hi hw
    generalize s.act a = u at hmoves
    induction hmoves with
    | refl => exact ⟨hw, id⟩
    | tail _ hm ih =>
        exact ⟨hm.watch_eq_none ih.1, fun hp => ih.2 (hm.of_mem_dropOnLanding hp)⟩
  · cases a with
    | ask _ => exact ⟨hw, id⟩
    | cancel i =>
        obtain ⟨rs, hrs, -⟩ := cancel_eq s i
        rw [show s.act (.cancel i) = { s with requests := rs } from hrs]
        exact ⟨hw, id⟩
    | invalidate _ => exact hkeeps.elim
    | clear => exact hkeeps.elim
    | _ => exact absurd trivial hi

/-- While nothing is invalidated, and the host is not asked about outdated results, nothing more is to be
dropped. -/
theorem of_mem_dropOnLanding_of_run (h : Run ok s t) (hok : ∀ a, ok a → a.Keeps)
    (hw : s.watch = none) : t.watch = none ∧ (p ∈ t.dropOnLanding → p ∈ s.dropOnLanding) := by
  induction h with
  | refl => exact ⟨hw, id⟩
  | next _ ha hadm ih =>
      obtain ⟨hw', hp'⟩ := of_mem_dropOnLanding_act (p := p) hadm (hok _ ha) ih.1
      exact ⟨hw', fun hp => ih.2 (hp' hp)⟩

theorem watch_invalidate (hw : s.watch = none) (p : String) : (s.invalidate p).2.watch = none :=
  watch_eq_none_of_lapses (lapses_invalidate s p) hw

theorem watch_clear (hw : s.watch = none) : s.clear.watch = none :=
  watch_eq_none_of_lapses (lapses_clear s) hw

/-! ### Flights that end with a result -/

/-- A flight that ends with a result leaves it to be used, unless it is to be dropped. -/
theorem UnderWay.lands (h : t.UnderWay p n) (ht : Coherent t) (ha : t.Admits a)
    (hr : (t.act a).Yields n r) : ReflTransGen (FlightStep n) t (t.act a) ∧
    (p ∈ t.dropOnLanding ∧ (t.act a).entries.get? p = none ∨
      p ∉ t.dropOnLanding ∧ ∃ e, (t.act a).entries.get? p = some e ∧ e.needsCheck = false ∧
        e.resolved = r) := by
  obtain ⟨c, hc, hst⟩ := hr
  have hdone : c.isRunning = false := isRunning_eq_false_of_status hst
  have hover : ¬ (t.act a).UnderWay p n := by
    rintro ⟨-, c', hc', hr'⟩
    rw [hc] at hc'; cases hc'
    rw [hdone] at hr'; cases hr'
  rcases h.over ht ha hover with ⟨rfl, c', o, hc', -, hst', -, hl⟩ | ⟨⟨c', hc', hr'⟩, -⟩
  · rw [hc] at hc'; cases hc'
    rw [hst] at hst'; cases hst'
    exact ⟨flightSteps_runFlight t n, hl.of_ok⟩
  · rw [hc] at hc'; cases hc'
    rw [hdone] at hr'; cases hr'

theorem UnderWay.not_ended (h : s.UnderWay p n) : ¬ s.Ended n := by
  rintro ⟨c, hc, hr⟩
  obtain ⟨-, c', hc', hr'⟩ := h
  rw [hc] at hc'; cases hc'
  rw [hr] at hr'; cases hr'

/-- A flight that is under way has been so since it began. -/
theorem Run.underWay (h : Run ok s t) (hs : Coherent s) (hf : s.flights.call? n = some f)
    (hn : t.UnderWay p n) : s.UnderWay p n := by
  have hall : (∃ f, t.flights.call? n = some f) ∧ (t.UnderWay p n → s.UnderWay p n) := by
    refine h.induction_coherent (P := fun t => (∃ f, t.flights.call? n = some f) ∧
      (t.UnderWay p n → s.UnderWay p n)) hs ⟨⟨f, hf⟩, id⟩ (fun v w hv hP hm => ?_)
      fun _ _ _ hP _ => hP
    obtain ⟨⟨f₁, hf₁⟩, hP⟩ := hP
    obtain ⟨f₂, hf₂, -⟩ := hm.exists_call? hf₁
    exact ⟨⟨f₂, hf₂⟩, fun hn => hP (hm.underWay hv hf₁ hn)⟩
  exact hall.2 hn

/-! ### Along references -/

/-- A result that can be used is kept for a path, and records the digest of an answer that the flight
for the path had got by then. -/
def KeepsOld (s u : Resolver) (p : String) (n : CallId) : Prop :=
  ∃ e, u.entries.get? p = some e ∧ e.needsCheck = false ∧ ∃ i ∈ s.childrenOf n, ∃ v,
    s.outcome? i = some (.result (.ok v)) ∧
      e.resolved.dependencyDigests.get? v.path = some v.digest

/-- When an invalidation has an asset in flight checked again, then the result with which its flight ends
is left to be used, with the answers that it had got before, unless it is dropped for another reason.
Where the flight had ended before, what is kept is marked. -/
theorem keepsOld_iff_of_run {x : Context} {cat : Catalog} {watch : Option Watch} (hcat : cat.Keyed)
    (h : Run ok (make x cat watch) s) (hq : s.catalog.contains q = true)
    (hp : p ∈ (s.affected q).2) :
    (s.UnderWay p n → ∀ t a r, Run ok (s.invalidate q).2 t → t.UnderWay p n → t.Admits a →
      (t.act a).Yields n r →
      (KeepsOld s (t.act a) p n ↔
        p ∉ t.dropOnLanding ∧ ∃ i ∈ s.childrenOf n, (s.outcome? i).isSome = true) ∧
      (s.watch = none → (∀ b, ok b → b.Keeps) → p ∈ t.dropOnLanding → p ∈ s.dropOnLanding)) ∧
    (¬ s.UnderWay p n → ∀ e, (s.invalidate q).2.entries.get? p = some e → e.needsCheck = true) := by
  have hs := h.coherent (.make hcat watch)
  have hflights := flights_invalidate s q
  have hrequests : (s.invalidate q).2.requests = s.requests :=
    (frame_of_lapses (lapses_invalidate s q)).2.2.2
  have hs₀ : Coherent (s.invalidate q).2 := hs.act (a := .invalidate q) trivial
  have hinvalidate : Run (fun _ => True) s (s.invalidate q).2 :=
    Run.refl.next (a := .invalidate q) trivial trivial
  refine ⟨fun hn t a r hrun hn' ha hr => ⟨⟨?_, ?_⟩, fun hw hok hd => ?_⟩, fun _ e he => ?_⟩
  · rintro ⟨e, he, -, i, hi, v, ho, -⟩
    refine ⟨fun hd => ?_, i, hi, by rw [ho]; rfl⟩
    rcases (hn'.lands (hrun.coherent hs₀) ha hr).2 with ⟨-, hnone⟩ | ⟨hd', -⟩
    · rw [hnone] at he; cases he
    · exact hd' hd
  · rintro ⟨hd, i, hi, ho⟩
    obtain ⟨hsteps, ⟨hd', -⟩ | ⟨-, e, he, hunmarked, rfl⟩⟩ := hn'.lands (hrun.coherent hs₀) ha hr
    · exact absurd hd' hd
    · obtain ⟨f, b, es, kept, children, hf, hst, hi'⟩ := exists_of_mem_childrenOf hi
      obtain ⟨⟨f', hf', hst'⟩, hstays⟩ :=
        hrun.gathering hs₀ (by rw [hflights]; exact hf) hst hn'.not_ended
      have hlabelled : Labelled t := ((h.labelled hcat).run hs hinvalidate).run hs₀ hrun
      obtain ⟨v, hv, hdigest⟩ := records_of_yields hlabelled (hrun.coherent hs₀) hn' hsteps hr hf'
        hst' hi'
      refine ⟨e, he, hunmarked, i, hi, v, ?_, hdigest⟩
      obtain ⟨o, ho⟩ := Option.isSome_iff_exists.1 ho
      have ho' := hstays i o (by rw [Resolver.outcome?, hrequests]; exact ho)
      rw [hv] at ho'; cases ho'
      exact ho
  · have hd₀ := (of_mem_dropOnLanding_of_run hrun hok (watch_invalidate hw q)).2 hd
    rcases (mem_dropOnLanding_invalidate hq).1 hd₀ with hd | ⟨hd, -⟩
    · exact hd
    · exact absurd hd (not_mem_affected hp)
  · rw [entries_invalidate_get? hq, if_neg fun h => not_mem_affected hp h.1, if_pos hp] at he
    obtain ⟨e₀, -, rfl⟩ := Option.map_eq_some_iff.1 he
    rfl

/-! ### A sample of references

`p` refers to `b`, whose source may change, and to `c`. It has got the answer of `b` when `b` changes. -/

/-- What a source that changes gives. -/
def replaced : Nat → Except LoadFault Bytes
  | 0 => .ok (Bytes.ofText "one")
  | _ => .ok (Bytes.ofText "two")

/-- The result that a flight has ended with. -/
def yield? (s : Resolver) (n : CallId) : Option Resolved :=
  (s.flights.call? n).bind fun c =>
    match c.status with
    | .finished (.result (.ok r)) => some r
    | _ => none

theorem yields_of_yield? (h : s.yield? n = some r) : s.Yields n r := by
  obtain ⟨c, hc, hr⟩ := Option.bind_eq_some_iff.1 h
  split at hr
  · next r' hst => cases hr; exact ⟨c, hc, hst⟩
  · cases hr

namespace Marked

/-- The three assets. -/
def catalog : Catalog :=
  (((∅ : Catalog).add
    ⟨"p", .static (Bytes.ofText "{{: path:b :}}{{: path:c :}}"), ({} : Choices).options false,
      by decide⟩).add
    ⟨"b", .dynamic (.varying replaced none) none, ({} : Choices).options true, Pair.b_ne_empty⟩).add
    ⟨"c", .static (Bytes.ofText "c"), ({} : Choices).options false, by decide⟩

theorem keyed_catalog : catalog.Keyed := ((Catalog.keyed_empty.add _).add _).add _

/-- The flight for `p` asks for both, and that for `b` ends. -/
def first : List Action :=
  [.ask (.logical "p"), .step (.request 0), .step (.flight 0), .step (.request 1),
    .step (.flight 1), .step (.request 1), .step (.forget 1)]

/-- The flight for `c` ends. -/
def second : List Action :=
  [.step (.request 2), .step (.flight 2), .step (.request 2), .step (.forget 2)]

/-- Both requests for `p` are served. -/
def third : List Action := [.step (.request 0), .step (.forget 0), .step (.request 3)]

/-- The state in which `b` changes. -/
def waiting : Resolver := ((make Sample.context catalog none).play [] first).1

/-- The state in which the flight for `p` has all that it waits for. -/
def ending : Resolver := ((waiting.invalidate "b").2.play [] second).1

/-- The state in which it has ended. -/
def ended : Resolver := ending.act (.step (.flight 0))

/-- The state in which `p` has been asked for once more. -/
def served : Resolver := ((ended.ask (.logical "p")).2.play [] third).1

/-- All this can happen, and the flight for `p` ends with a result. -/
theorem playable : (make Sample.context catalog none).Playable first ∧
    (waiting.invalidate "b").2.Playable second ∧ (ended.ask (.logical "p")).2.Playable third ∧
    (ended.yield? 0).isSome = true := by
  decide +kernel

theorem run_waiting :
    Run (fun a => a.Patient ∧ a.Keeps) (make Sample.context catalog none) waiting :=
  (Course.refl.play playable.1 (by simp [first, Action.Patient, Action.Keeps])).run

theorem run_ending : Run (fun a => a.Patient ∧ a.Keeps) (waiting.invalidate "b").2 ending :=
  (Course.refl.play playable.2.1 (by simp [second, Action.Patient, Action.Keeps])).run

theorem run_served : Run Action.Internal (ended.ask (.logical "p")).2 served :=
  (Course.refl.play playable.2.2.1 (by simp [third, Action.Internal])).run

theorem exists_yields : ∃ r, ended.Yields 0 r := by
  obtain ⟨r, hr⟩ := Option.isSome_iff_exists.1 playable.2.2.2
  exact ⟨r, yields_of_yield? hr⟩

end Marked

/-- In the sample: what is kept for `p` records an answer from before just if `p` is not to be dropped
and there was one, and nothing is to be dropped that was not so before. -/
theorem keepsOld_ended_iff : ∃ r, Marked.ended.Yields 0 r ∧
    (KeepsOld Marked.waiting Marked.ended "p" 0 ↔ "p" ∉ Marked.ending.dropOnLanding ∧
      ∃ i ∈ Marked.waiting.childrenOf 0, (Marked.waiting.outcome? i).isSome = true) ∧
    ("p" ∈ Marked.ending.dropOnLanding → "p" ∈ Marked.waiting.dropOnLanding) := by
  obtain ⟨r, hr⟩ := Marked.exists_yields
  obtain ⟨hiff, hdrop⟩ := (keepsOld_iff_of_run (q := "b") (p := "p") (n := 0) Marked.keyed_catalog
    Marked.run_waiting (by decide +kernel) (by decide +kernel)).1 (by decide +kernel) Marked.ending
    (.step (.flight 0)) r Marked.run_ending (by decide +kernel) (by decide +kernel) hr
  exact ⟨r, hr, hiff, hdrop (by decide +kernel) fun _ => And.right⟩

/-- A mark may be lost: `p` is to be checked again, and in flight, when `b` changes. The flight ends with
a result that is left to be used and records the digest that `b` had before. The next request is
answered with it, and `b` is not read again. -/
theorem exists_run_keepsOld : ∃ s t a r,
    Run Action.Patient (make Sample.context Marked.catalog none) s ∧ s.UnderWay "p" 0 ∧
    "p" ∈ (s.affected "b").2 ∧ (s.invalidate "b").1 = .ok (s.affected "b") ∧
    Run Action.Patient (s.invalidate "b").2 t ∧ t.UnderWay "p" 0 ∧ t.Admits a ∧
    (t.act a).Yields 0 r ∧ KeepsOld s (t.act a) "p" 0 ∧
    ∃ u, Run Action.Internal ((t.act a).ask (.logical "p")).2 u ∧
      u.outcome? (t.act a).requests.length = some (.result (.ok r)) ∧
      u.catalog.calls.get? "b" = some 1 := by
  obtain ⟨r, hr⟩ := Marked.exists_yields
  have hsame : Marked.served.result? Marked.ended.requests.length = Marked.ended.yield? 0 := by
    decide +kernel
  have hyield : Marked.ended.yield? 0 = some r := by
    obtain ⟨c, hc, hst⟩ := hr
    simp [yield?, hc, hst]
  have hunmarked : (Marked.ended.entries.get? "p").map (·.needsCheck) = some false := by
    decide +kernel
  obtain ⟨e, he, hcheck⟩ := Option.map_eq_some_iff.1 hunmarked
  have hpath : (Marked.waiting.result? 1).map (·.path) = some "b" := by decide +kernel
  obtain ⟨v, hv, hb⟩ := Option.map_eq_some_iff.1 hpath
  have hdigest : (Marked.ended.entries.get? "p").bind (·.resolved.dependencyDigests.get? "b")
      = (Marked.waiting.result? 1).map (·.digest) := by decide +kernel
  rw [he, hv] at hdigest
  exact ⟨Marked.waiting, Marked.ending, .step (.flight 0), r,
    Marked.run_waiting.mono fun _ => And.left, by decide +kernel, by decide +kernel,
    by decide +kernel, Marked.run_ending.mono fun _ => And.left, by decide +kernel,
    by decide +kernel, hr,
    ⟨e, he, hcheck, 1, by decide +kernel, v, outcome?_of_result? hv, hb ▸ hdigest⟩,
    Marked.served, Marked.run_served, outcome?_of_result? (hsame.trans hyield), by decide +kernel⟩

/-! ### Along includes -/

/-- A flight waits for the targets of its edges, and includes a path. -/
def Includes (s : Resolver) (n : CallId) (p : String) : Prop :=
  ∃ f a es kept children, s.flights.call? n = some f ∧
    f.status = .running (.gathering a es kept children) ∧
      ∃ e ∈ es, e.target = p ∧ e.kind = .include

/-- A flight has ended with an answer. -/
def Answered (s : Resolver) (n : CallId) (a : Answer) : Prop :=
  ∃ f, s.flights.call? n = some f ∧ f.status = .finished (.result a)

theorem Answered.move {b : Answer} (h : s.Answered n b) (hm : Move s u) : u.Answered n b := by
  obtain ⟨f, hf, hst⟩ := h
  obtain ⟨f', hf', -, hst'⟩ := hm.finished hf hst
  exact ⟨f', hf', hst'⟩

/-- A request for a logical path waits for a flight, or has its answer. -/
def Served (s : Resolver) (i : RequestId) (n : CallId) : Prop :=
  ∃ r q, s.requests[i]? = some r ∧ r.target = .logical q ∧
    (r.caller = .waiting n ∨ ∃ b, r.caller = .done (.result b) ∧ s.Answered n b)

theorem Served.move (h : s.Served i n) (hun : Unhurried s) (hm : Move s u) : u.Served i n := by
  obtain ⟨r, q, hr, ht, hd⟩ := h
  obtain ⟨r', hr', ht', hc⟩ := hm.exists_request hr
  refine ⟨r', q, hr', ht'.trans ht, ?_⟩
  rcases hc with hsame | hfresh | ⟨m, o, hw, hans, hdone⟩
  · rw [hsame]
    exact hd.imp_right fun ⟨b, hb, ha⟩ => ⟨b, hb, ha.move hm⟩
  · -- a request that waits, or has its answer, has asked
    rcases hd with hw | ⟨b, hb, -⟩
    · rw [hfresh] at hw; cases hw
    · rw [hfresh] at hb; cases hb
  · rcases hd with hw' | ⟨b, hb, -⟩
    · rw [hw] at hw'; cases hw'
      obtain ⟨c, b, hc, hst, rfl⟩ := hun.answer hr hans
      rw [ht] at hdone
      exact .inr ⟨b, hdone, Answered.move ⟨c, hc, hst⟩ hm⟩
    · rw [hw] at hb; cases hb

theorem Served.run (h : s.Served i n) (hun : Unhurried s) (hrun : Run ok s t)
    (hok : ∀ a, ok a → a.Patient) : Unhurried t ∧ t.Served i n :=
  hrun.induction hok (P := fun t => Unhurried t ∧ t.Served i n) ⟨hun, h⟩
    fun _ _ hP hm => ⟨hP.1.move hm, hP.2.move hP.1 hm⟩

/-- A flight is for one path. -/
theorem Run.key (h : Run ok s t) (hs : Coherent s) (hf : s.flights.call? n = some f) :
    ∃ f', t.flights.call? n = some f' ∧ f'.key = f.key :=
  h.induction_coherent (P := fun t => ∃ f', t.flights.call? n = some f' ∧ f'.key = f.key) hs
    ⟨f, hf, rfl⟩ (fun _ _ _ ⟨f₁, hf₁, hk⟩ hm => by
      obtain ⟨f₂, hf₂, hk₂, -⟩ := hm.exists_call? hf₁
      exact ⟨f₂, hf₂, hk₂.trans hk⟩) fun _ _ _ hP _ => hP

/-- A flight that includes an asset when this is invalidated is to be dropped, unless its path has lost
its edges. -/
theorem Includes.mem_affected {lost : List String} (h : s.Includes m p) (hs : Coherent s)
    (hmirrored : Mirrored s lost) (hm : s.UnderWay q m) (hlost : q ∉ lost) :
    q ∈ (s.affected p).1 := by
  obtain ⟨f, a, es, kept, children, hf, hst, e, he, ht, hk⟩ := h
  obtain ⟨f', hf', rfl, hgo, -⟩ := hm.exists_call hs
  rw [hf] at hf'; cases hf'
  have hedges : s.graph.edgesOf f.key = es := (hmirrored.gathering hs hf hgo hst).trans (if_neg hlost)
  exact mem_affected_of_include hs.graph (hedges.symm ▸ he) hk (ht ▸ self_mem_affected s _)

/-- A flight that has got the answer of a flight whose asset was invalidated on its way ends with a
result that records the outdated answer. The result is left to be used, unless it is to be dropped. It is
if the flight had come to wait before the invalidation, and its path has not lost its edges; and if
nothing else is invalidated then only a flight that the invalidation has found is. -/
theorem includer_unmarked_iff_of_course {x : Context} {cat : Catalog} {watch : Option Watch}
    {lost : List String} (hcat : cat.Keyed) (hok : ∀ a, ok a → a.Patient)
    (h : Course ok (make x cat watch) s lost) (hn : s.UnderWay p n) {t₁ : Resolver}
    (h₁ : Run ok (s.invalidate p).2 t₁) (hj : j ∈ t₁.childrenOf m) (hw : t₁.IsWaiting j n)
    (h₂ : Run ok t₁ t) (hm : t.UnderWay q m) (ha : t.Admits a) (hr : (t.act a).Yields m r) :
    (∃ v, t.Yields n v ∧ r.dependencyDigests.get? p = some v.digest) ∧
    ((∃ e, (t.act a).entries.get? q = some e ∧ e.needsCheck = false) ↔ q ∉ t.dropOnLanding) ∧
    (s.Includes m p → q ∉ lost → q ∈ t.dropOnLanding) ∧
    (s.watch = none → (∀ b, ok b → b.Keeps) → q ∈ t.dropOnLanding →
      q ∈ s.dropOnLanding ∨ q ∈ (s.affected p).1 ∧ s.flights.slots.get? q ≠ none) := by
  have hs := h.run.coherent (.make hcat watch)
  have hreg := h.run.registered hcat hn.1
  have hflights := flights_invalidate s p
  have hinvalidate : Run Action.Patient s (s.invalidate p).2 :=
    Run.refl.next (a := .invalidate p) trivial trivial
  have hs₀ := hinvalidate.coherent hs
  have hun₀ : Unhurried (s.invalidate p).2 :=
    hinvalidate.induction (fun _ => id) (h.run.induction hok (.make x cat watch)
      fun _ _ hP hm => hP.move hm) fun _ _ hP hm => hP.move hm
  have hs₁ := h₁.coherent hs₀
  have ht := h₂.coherent hs₁
  obtain ⟨g, b, es, kept, children, hg, hst, hj'⟩ := exists_of_mem_childrenOf hj
  obtain ⟨hsteps, hlands⟩ := hm.lands ht ha hr
  refine ⟨?_, ?_, fun hincludes hlost => ?_, fun hwatch hkeeps hd => ?_⟩
  · -- the request had the answer of the flight that was invalidated
    have hserved : t₁.Served j n := by
      obtain ⟨r₁, hr₁, hc₁⟩ := hw
      obtain ⟨r₂, q', hr₂, ht₂, -⟩ := hs₁.wired.exists_child hg hst hj'
      rw [hr₁] at hr₂; cases hr₂
      exact ⟨r₁, q', hr₁, ht₂, .inl hc₁⟩
    have hun₁ : Unhurried t₁ := h₁.induction hok hun₀ fun _ _ hP hm => hP.move hm
    obtain ⟨-, r', q', hr', -, hd⟩ := hserved.run hun₁ h₂ hok
    have hlabelled : Labelled t :=
      (((h.run.labelled hcat).run hs hinvalidate).run hs₀ h₁).run hs₁ h₂
    obtain ⟨⟨g', hg', hst'⟩, -⟩ := h₂.gathering hs₁ hg hst hm.not_ended
    obtain ⟨v, hv, hdigest⟩ := records_of_yields hlabelled ht hm hsteps hr hg' hst' hj'
    obtain ⟨r'', hr'', hdone⟩ := outcome?_eq_some_iff.1 hv
    rw [hr'] at hr''; cases hr''
    rcases hd with hwaits | ⟨b', hb', hanswered⟩
    · rw [hdone] at hwaits; cases hwaits
    · rw [hdone] at hb'; cases hb'
      obtain ⟨c, hc, hst''⟩ := hanswered
      obtain ⟨c₀, hc₀, hk₀, -⟩ := hn.exists_call hs
      obtain ⟨c', hc', hk'⟩ := (h₁.trans h₂).key hs₀ (by rw [hflights]; exact hc₀)
      rw [hc] at hc'; cases hc'
      have hpath : v.path = p := (hlabelled.answers.flights n c _ (Nat.zero_le n) hc hst'' v rfl).trans
        (hk'.trans hk₀)
      exact ⟨v, ⟨c, hc, hst''⟩, hpath ▸ hdigest⟩
  · rcases hlands with ⟨hd, hnone⟩ | ⟨hd, e, he, hunmarked, -⟩
    · simp [hd, hnone]
    · simp [hd, he, hunmarked]
  · obtain ⟨g₀, -, -, -, -, hg₀, -⟩ := id hincludes
    have hm₀ : (s.invalidate p).2.UnderWay q m :=
      h₁.underWay hs₀ (by rw [hflights]; exact hg₀) (h₂.underWay hs₁ hg hm)
    have hm' : s.UnderWay q m := by
      unfold UnderWay at hm₀
      rwa [hflights] at hm₀
    have hnoted : q ∈ (s.invalidate p).2.dropOnLanding := (mem_dropOnLanding_invalidate hreg).2
      (.inr ⟨hincludes.mem_affected hs (h.mirrored hcat) hm' hlost, by simp [hm'.1]⟩)
    rcases ((h₁.trans h₂).meanwhile hs₀ hm₀ hm).noted hnoted with hd | ⟨k, ⟨c, hc, -, hcan, -⟩, -⟩
    · exact hd
    · rw [(hun₀.calls k c hc).1] at hcan; cases hcan
  · have hd₀ := (of_mem_dropOnLanding_of_run (h₁.trans h₂) hkeeps (watch_invalidate hwatch p)).2 hd
    exact (mem_dropOnLanding_invalidate hreg).1 hd₀

/-! ### A sample of includes

`p` is being read, from a source that waits at a gate, when it changes. Then `i`, which includes `p`, is
asked for. -/

namespace Joined

/-- The two assets. -/
def catalog : Catalog :=
  ((∅ : Catalog).add
    ⟨"p", .dynamic (.varying replaced (some "gate")) none, ({} : Choices).options true, by decide⟩).add
    ⟨"i", .static (Bytes.ofText "{{: include:p :}}"), ({} : Choices).options false, by decide⟩

theorem keyed_catalog : catalog.Keyed := (Catalog.keyed_empty.add _).add _

/-- The flight for `p` is held. -/
def first : List Action := [.ask (.logical "p"), .step (.request 0), .step (.flight 0)]

/-- The flight for `i` comes to wait for it. -/
def second : List Action :=
  [.ask (.logical "i"), .step (.request 1), .step (.flight 1), .step (.request 2)]

/-- The flight for `p` ends. -/
def third : List Action :=
  [.openGate "gate", .step (.flight 0), .step (.request 0), .step (.request 2), .step (.forget 0)]

/-- Both requests for `i` are served. -/
def fourth : List Action := [.step (.request 1), .step (.forget 1), .step (.request 3)]

/-- The state in which `p` changes. -/
def held : Resolver := ((make Sample.context catalog none).play [] first).1

/-- The state in which the flight for `i` waits for that for `p`. -/
def joined : Resolver := ((held.invalidate "p").2.play [] second).1

/-- The state in which it has its answer. -/
def ending : Resolver := (joined.play [] third).1

/-- The state in which it has ended. -/
def ended : Resolver := ending.act (.step (.flight 1))

/-- The state in which `i` has been asked for once more. -/
def served : Resolver := ((ended.ask (.logical "i")).2.play [] fourth).1

/-- All this can happen. The flight for `i` has waited for that for `p` when it ends with a result. -/
theorem playable : (make Sample.context catalog none).Playable first ∧
    (held.invalidate "p").2.Playable second ∧ joined.Playable third ∧
    (ended.ask (.logical "i")).2.Playable fourth ∧
    (joined.requests[2]?).map (·.caller) = some (.waiting 0) ∧ (ended.yield? 1).isSome = true := by
  decide +kernel

theorem course_held :
    Course (fun a => a.Patient ∧ a.Keeps) (make Sample.context catalog none) held [] :=
  Course.refl.play playable.1 (by simp [first, Action.Patient, Action.Keeps])

theorem run_joined : Run (fun a => a.Patient ∧ a.Keeps) (held.invalidate "p").2 joined :=
  (Course.refl.play playable.2.1 (by simp [second, Action.Patient, Action.Keeps])).run

theorem run_ending : Run (fun a => a.Patient ∧ a.Keeps) joined ending :=
  (Course.refl.play playable.2.2.1 (by simp [third, Action.Patient, Action.Keeps])).run

theorem run_served : Run Action.Internal (ended.ask (.logical "i")).2 served :=
  (Course.refl.play playable.2.2.2.1 (by simp [fourth, Action.Internal])).run

theorem exists_yields : ∃ r, ended.Yields 1 r := by
  obtain ⟨r, hr⟩ := Option.isSome_iff_exists.1 playable.2.2.2.2.2
  exact ⟨r, yields_of_yield? hr⟩

theorem waiting_joined : joined.IsWaiting 2 0 := by
  obtain ⟨r, hr, hw⟩ := Option.map_eq_some_iff.1 playable.2.2.2.2.1
  exact ⟨r, hr, hw⟩

end Joined

/-- In the sample: what `i` ends with records the answer of the outdated flight, and is left to be used
just if `i` is not to be dropped. -/
theorem includer_unmarked_joined : ∃ r v, Joined.ended.Yields 1 r ∧ Joined.ending.Yields 0 v ∧
    r.dependencyDigests.get? "p" = some v.digest ∧
    ((∃ e, Joined.ended.entries.get? "i" = some e ∧ e.needsCheck = false) ↔
      "i" ∉ Joined.ending.dropOnLanding) := by
  obtain ⟨r, hr⟩ := Joined.exists_yields
  obtain ⟨⟨v, hv, hdigest⟩, hiff, -⟩ := includer_unmarked_iff_of_course (q := "i")
    Joined.keyed_catalog (fun _ => And.left) Joined.course_held (by decide +kernel) Joined.run_joined
    (by decide +kernel) Joined.waiting_joined Joined.run_ending (by decide +kernel)
    (by decide +kernel) hr
  exact ⟨r, v, hr, hv, hdigest, hiff⟩

/-- What includes an asset may keep what was outdated on its way: `p` changes while it is in flight, and
is dropped when the flight ends. But `i`, which has asked for `p` in between, is left to be used with
what the flight gave. The next request is answered with it, and `p` is not read again. -/
theorem exists_run_includer_unmarked : ∃ s t₁ t a r v,
    Run Action.Patient (make Sample.context Joined.catalog none) s ∧ s.UnderWay "p" 0 ∧
    Run Action.Patient (s.invalidate "p").2 t₁ ∧ 2 ∈ t₁.childrenOf 1 ∧ t₁.IsWaiting 2 0 ∧
    Run Action.Patient t₁ t ∧ t.Yields 0 v ∧ t.entries.get? "p" = none ∧ t.UnderWay "i" 1 ∧
    t.Admits a ∧ (t.act a).Yields 1 r ∧ "p" ∈ r.includes ∧ r.content = v.content ∧
    (∃ e, (t.act a).entries.get? "i" = some e ∧ e.needsCheck = false ∧ e.resolved = r) ∧
    ∃ u, Run Action.Internal ((t.act a).ask (.logical "i")).2 u ∧
      u.outcome? (t.act a).requests.length = some (.result (.ok r)) ∧
      u.catalog.calls.get? "p" = some 1 := by
  obtain ⟨r, hr⟩ : ∃ r, Joined.ended.yield? 1 = some r :=
    Option.isSome_iff_exists.1 (by decide +kernel)
  obtain ⟨v, hv⟩ : ∃ v, Joined.ending.yield? 0 = some v :=
    Option.isSome_iff_exists.1 (by decide +kernel)
  have hincludes : (Joined.ended.yield? 1).map (·.includes) = some ["p"] := by decide +kernel
  have hcontent : (Joined.ended.yield? 1).map (·.content)
      = (Joined.ending.yield? 0).map (·.content) := by decide +kernel
  have hkept : (Joined.ended.entries.get? "i").map (fun e => (e.needsCheck, some e.resolved))
      = some (false, Joined.ended.yield? 1) := by decide +kernel
  have hsame : Joined.served.result? Joined.ended.requests.length = Joined.ended.yield? 1 := by
    decide +kernel
  rw [hr, Option.map_some] at hincludes
  rw [hr, hv, Option.map_some, Option.map_some] at hcontent
  obtain ⟨e, he, hunmarked⟩ := Option.map_eq_some_iff.1 hkept
  rw [hr] at hunmarked
  have hheld := Joined.course_held.run.mono (fun _ => And.left)
  exact ⟨Joined.held, Joined.joined, Joined.ending, .step (.flight 1), r, v, hheld,
    by decide +kernel, Joined.run_joined.mono fun _ => And.left, by decide +kernel,
    Joined.waiting_joined, Joined.run_ending.mono fun _ => And.left, yields_of_yield? hv,
    by decide +kernel, by decide +kernel, by decide +kernel, yields_of_yield? hr,
    by rw [Option.some.inj hincludes]; exact List.mem_singleton_self _, Option.some.inj hcontent,
    ⟨e, he, congrArg Prod.fst hunmarked, Option.some.inj (congrArg Prod.snd hunmarked)⟩,
    Joined.served, Joined.run_served, outcome?_of_result? (hsame.trans hr), by decide +kernel⟩

end HashedAssets.Resolver
