import HashedAssets.Proofs.Resolution.Snapshot
import HashedAssets.Proofs.Resolver.Deadlock
import HashedAssets.Proofs.Resolver.Ends
import HashedAssets.Proofs.Resolver.Sound

/-!
# Resolving on demand and all at once

With sources that never change, whoever asks for an asset gets what a snapshot of all assets holds for
it, whatever else is asked, and however often results are dropped meanwhile.

* `Solved`: everything that is kept is the solution, marked or not;
* `Run.solved`: every run of patient callers keeps it;
* `not_pending_of_settled`: when nothing can go on, nobody waits;
* `Agrees`, `agrees_of_run`: what a request ends with.
-/

namespace HashedAssets.Resolver

open SingleFlight Relation

variable {x : Context} {c : Catalog} {watch : Option Watch} {s u : Resolver} {ok : Action → Prop}

/-! ### What is kept -/

/-- What is kept is the solution, also where it is marked. -/
def Solved (x : Context) (c : Catalog) (s : Resolver) : Prop :=
  ∀ p e, s.entries.get? p = some e → x.Solves c p e.resolved

/-- A flight that checks a kept result checks the solution. -/
theorem Solved.reuses (h : Solved x c s) (hs : Coherent s) : Reuses x c s := by
  intro n f a es k children m hf hgo hst _ _
  obtain ⟨e, he, -, hr, -⟩ := hs.tended.exists_entry hf hgo hst
  exact hr ▸ h f.key e he

theorem Solved.move {n₀ : CallId} {i₀ : RequestId} (h : Solved x c s) (hc : c.Keyed)
    (hs : Coherent s) (hsound : Sound x c n₀ i₀ s) (hm : Move s u) : Solved x c u := by
  intro p e he
  rcases hm.entry hs he with ⟨e₀, he₀, -, hr, -⟩ | ⟨n, f, m, hf, hgo, rfl, hl, -, -⟩
  · exact hr ▸ h p e₀ he₀
  · exact hl.solves hsound hc hs (h.reuses hs) hf hgo

/-- What holds of runs of patient callers over sources that never change. -/
theorem Run.solved (hc : c.Keyed) (hsteady : c.Steady) (h : Run ok (make x c watch) s)
    (hok : ∀ a, ok a → a.Patient) :
    Coherent s ∧ Unhurried s ∧ Sound x c 0 0 s ∧ Solved x c s :=
  h.induction hok (P := fun s => Coherent s ∧ Unhurried s ∧ Sound x c 0 0 s ∧ Solved x c s)
    ⟨.make hc watch, .make x c watch, .make x c watch, fun p e he => by cases he⟩
    fun _ _ ⟨hs, hun, hsound, hsol⟩ hm => ⟨hs.move hm, hun.move hm,
      hsound.move hc hsteady hs (hsol.reuses hs) hm, hsol.move hc hs hsound hm⟩

/-! ### Nobody waits forever -/

/-- A flight waits for a flight for what its asset needs. -/
theorem WaitsFor.needs {n₀ : CallId} {i₀ : RequestId} (hs : Coherent s)
    (hsound : Sound x c n₀ i₀ s) {p q : String} (h : s.WaitsFor p q) : x.Needs c p q := by
  obtain ⟨n, f, a, es, kept, children, i, r, m, hslot, hf, hst, hi, hr, hw, hq⟩ := h
  obtain ⟨f', hf', hkey, -⟩ := hs.wired.slot p n hslot
  rw [hf] at hf'; cases hf'
  exact ⟨a, es, hkey ▸ hsound.held.reads_of_gathering hf hst, hs.mem_targets_of_child hf hst hi hr hw hq⟩

/-- An asset whose kept result is checked resolves to something. -/
theorem Checks.exists_solves (hs : Coherent s) (hsol : Solved x c s) {p : String} (h : s.Checks p) :
    ∃ r, x.Solves c p r := by
  obtain ⟨n, f, a, es, k, children, hslot, hf, hst⟩ := h
  obtain ⟨f', hf', hkey, hgo⟩ := hs.wired.slot p n hslot
  rw [hf] at hf'; cases hf'
  obtain ⟨e, he, -⟩ := hs.tended.exists_entry hf hgo hst
  exact ⟨_, hkey ▸ hsol f.key e he⟩

/-- With sources that never change no flights wait for one another in a circle: there is one in it that
checks a kept result, but an asset of a kept result does not need itself. -/
theorem not_circle (hc : c.Keyed) (hsteady : c.Steady) (h : Run ok (make x c watch) s)
    (hok : ∀ a, ok a → a.Patient) (p : String) : ¬ TransGen s.WaitsFor p p := by
  intro hp
  obtain ⟨hs, hun, hsound, hsol⟩ := h.solved hc hsteady hok
  obtain ⟨lost, hcourse⟩ := h.exists_course
  obtain ⟨q, -, hchecks, hpq, hqp⟩ := exists_lost_of_waitsFor hs (hcourse.mirrored hc)
    (hcourse.written hc hok).2 (h.acyclic (.make hc watch) .empty hok) hp
  obtain ⟨r, hr⟩ := Checks.exists_solves hs hsol hchecks
  have hcircle := (hp.trans_right hqp).trans_left hpq
  exact hr.not_transGen hc (TransGen.mono (fun _ _ => WaitsFor.needs hs hsound) _ _ hcircle)

/-- When nothing can go on and no source keeps its bytes back, every request has an outcome. -/
theorem not_pending_of_settled (hc : c.Keyed) (hsteady : c.Steady) (h : Run ok (make x c watch) s)
    (hok : ∀ a, ok a → a.Patient) (hset : s.Settled) (hheld : s.NothingHeld) : ¬ s.Pending := by
  obtain ⟨hs, hun, -, -⟩ := h.solved hc hsteady hok
  rw [pending_iff_exists_circle hs hun hset hheld]
  rintro ⟨p, hp⟩
  exact not_circle hc hsteady h hok p hp

/-! ### What requests end with -/

/-- What a request for an asset may end with: the result for a good asset, and this is the one that every
snapshot of all assets holds; a failure for any other. -/
def Agrees (x : Context) (c : Catalog) (p : String) : Outcome Answer → Prop
  | .result (.ok r) => x.Good c p ∧ x.Solves c p r ∧ ∀ snap, (Snapshot.build x c).1 = .ok snap →
      ∃ r', snap.resolve p = .ok r' ∧ r = { r' with compressed := none }
  | .result (.error _) => ¬ x.Good c p
  | .cancelled => False

/-! ### A sample

`a` refers to `b`. Two requests for `a` and one for `b` share two flights, and what is known of `b` is
dropped while its flight is under way. -/

namespace Sample

/-- Default settings, and a hash function that gives the first nine bytes. -/
def context : Context := Pair.context fun b => (b ++ List.replicate 9 0).take 9

theorem length_hash (b : Bytes) : (context.hash b).length = 9 := by
  simp [context, Pair.context]

/-- The two assets, with a source of `b` that never changes. -/
def catalog : Catalog := Pair.catalog (.constant (.ok (Bytes.ofText "one")))

theorem keyed_catalog : catalog.Keyed := Pair.keyed_catalog _

theorem steady_catalog : catalog.Steady :=
  (Catalog.steady_empty.add fun _ => rfl).add fun _ => rfl

theorem longDigests : context.LongDigests := fun b => by
  rw [length_hash]
  decide

/-- Whether a request has ended with a result. -/
def succeeds (s : Resolver) (i : RequestId) : Bool :=
  match s.outcome? i with
  | some (.result (.ok _)) => true
  | _ => false

theorem exists_of_succeeds {i : RequestId} (h : succeeds s i = true) :
    ∃ r, s.outcome? i = some (.result (.ok r)) := by
  unfold succeeds at h
  split at h
  · next r hr => exact ⟨r, hr⟩
  · cases h

/-- All three requests are made at once, and served. -/
def actions : List Action :=
  [.ask (.logical "a"), .ask (.logical "b"), .ask (.logical "a"), .step (.request 0),
    .step (.request 1), .step (.request 2), .step (.flight 0), .step (.request 3), .invalidate "b",
    .step (.flight 1), .step (.request 1), .step (.request 3), .step (.forget 1), .step (.flight 0),
    .step (.request 0), .step (.request 2), .step (.forget 0)]

/-- The state after that. -/
def served : Resolver := ((make context catalog none).play [] actions).1

theorem run_served : Run Action.Patient (make context catalog none) served :=
  (Course.refl.play (by decide +kernel) (by simp [actions, Action.Patient])).run

end Sample

/-- Whatever patient callers ask, and whatever is dropped meanwhile: every request that ends does so as
in a resolution of all assets at once, what goes on comes to an end in whatever order it does, and no
request is left when nothing can go on. -/
theorem agrees_of_run (hx : x.LongDigests) (hc : c.Keyed) (hsteady : c.Steady)
    (hok : ∀ a, ok a → a.Patient) (h : Run ok (make x c watch) s) :
    (∀ (i : Nat) r p o, s.requests[i]? = some r → r.target = .logical p → r.caller = .done o →
      Agrees x c p o) ∧
    s.Ends ∧ (s.Settled → s.NothingHeld → ¬ s.Pending) := by
  obtain ⟨-, hun, hsound, -⟩ := h.solved hc hsteady hok
  have hrest : Levelled (fun _ => 0) (fun _ => 0) (make x c watch) :=
    .rest (fun n f hf => by cases hf) fun i r hr => by cases hr
  refine ⟨fun i r p o hr ht hd => ?_, h.ends hok (.make hc watch) (.make x c watch) hrest,
    not_pending_of_settled hc hsteady h hok⟩
  cases o with
  | cancelled => exact absurd hd (hun.requests i r hr).2
  | result a =>
      have hcorrect := hsound.answers.requests i r a p (Nat.zero_le i) hr hd ht
      cases a with
      | error f =>
          show ¬ x.Good c p
          rw [Context.good_iff_exists_solves hx hc]
          rintro ⟨v, hv⟩
          exact hcorrect v hv
      | ok v =>
          have hsol : x.Solves c p v := hcorrect
          refine ⟨hsol.good hc, hsol, fun snap hsnap => ?_⟩
          obtain ⟨⟨d, raw, hd, -⟩, -⟩ := hsol
          obtain ⟨v', hv', hsol'⟩ := Snapshot.solves_of_build hc hsteady hsnap
            (Catalog.contains_iff.2 ⟨d, hd⟩)
          exact ⟨v', hv', Context.Solves.unique hcorrect hsol'⟩

/-- In the sample: nobody waits, and the last request ends with what every snapshot holds. -/
theorem agrees_served : ¬ Sample.served.Pending ∧ ∃ r,
    Sample.served.outcome? 2 = some (.result (.ok r)) ∧
      Agrees Sample.context Sample.catalog "a" (.result (.ok r)) := by
  obtain ⟨hagrees, -, hended⟩ := agrees_of_run Sample.longDigests Sample.keyed_catalog
    Sample.steady_catalog (fun _ h => h) Sample.run_served
  refine ⟨hended (by decide +kernel) (by decide +kernel), ?_⟩
  obtain ⟨v, hv⟩ := Sample.exists_of_succeeds (s := Sample.served) (i := 2) (by decide +kernel)
  obtain ⟨r, hr, hd⟩ := outcome?_eq_some_iff.1 hv
  have htarget : Sample.served.requests[2]?.map (·.target) = some (.logical "a") := by
    decide +kernel
  rw [hr] at htarget
  exact ⟨v, hv, hagrees 2 r "a" _ hr (Option.some.inj htarget) hd⟩

end HashedAssets.Resolver
