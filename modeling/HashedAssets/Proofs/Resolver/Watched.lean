import HashedAssets.Proofs.Resolver.Outdated
import HashedAssets.Proofs.Resolver.Revival
import HashedAssets.Proofs.Resolver.Sequential

/-!
# A host that says what is outdated

A resolver is used by one caller. Sources change without a word, and assets are resolved one at a time;
before a kept result is used, the host is asked about it, and says just what is outdated.

* `Attended`: the states that come of this, as long as what is resolved has a result;
* `Closed`: all that an unmarked result depends on is kept;
* `Guarded.act`, `Guarded.run`: what goes on by itself keeps what holds while an asset is resolved;
* `Watched`: what holds while nothing goes on; `Watched.change`, `Guarded.rest`: it is kept by changes
  and by what is resolved, if all is closed;
* `fresh_of_attended`: what is resolved next is what a snapshot of the sources as they are holds, and all
  that it needs has come up;
* `exists_attended_outdated`: not so where something that a result depends on was dropped.
-/

namespace HashedAssets.Resolver

open SingleFlight Relation

variable {x : Context} {c k : Catalog} {len : Nat} {n₀ n : CallId} {i₀ i : RequestId}
  {asked : List String} {s t u : Resolver} {f : Flight} {r : Request} {p q y : String} {v : Resolved}

/-! ### What goes on by itself -/

theorem Guarded.moves (h : Guarded x c k len n₀ i₀ asked s) (hmoves : ReflTransGen Move s u)
    (habreast : Abreast x c k len n₀ i₀ asked u) (hspot : Spotless i₀ u) (hmir : Mirrored u [])
    (hwatch : u.watch = s.watch) (hlogical : Logical u) :
    Guarded x c k len n₀ i₀ asked u := by
  exact ⟨habreast, h.coherent.moves hmoves, h.unhurried.moves hmoves, hspot, hmir, h.constant,
    hwatch ▸ h.watched, hlogical⟩

/-- What goes on by itself asks for logical paths only. -/
theorem Logical.advance (h : Logical s) (hs : Coherent s) (hm : Advance s u) : Logical u := by
  intro i r hr
  cases hm with
  | calm hm =>
      cases hm with
      | quiet hq => cases hq; exact h i r hr
      | @request j r₀ _ hr₀ hm =>
          by_cases hij : i = j
          · subst hij
            obtain ⟨ht, -⟩ := hm.not_fresh hr₀ hr
            rcases h i r₀ hr₀ with hdone | ⟨p, hp⟩
            · unfold Caller.isDone Caller.outcome? at hdone
              split at hdone
              · next o ho => exact absurd ho (hm.not_done o)
              · cases hdone
            · exact .inr ⟨p, ht.trans hp⟩
          · obtain ⟨rs, y, hrs, hu⟩ := hm.hushed
            rw [hu] at hr
            obtain ⟨r₁, hr₁, ⟨hji, -⟩ | ⟨-, rfl⟩⟩ := request_of_modify hr
            · exact absurd hji.symm hij
            · obtain ⟨r₂, hr₂, ht, hc⟩ := hrs.exists_eq hr₁
              rw [← ht, ← hc]
              exact h i r₂ hr₂
  | forget _ _ => exact h i r hr
  | @flight n f _ hf hm =>
      rcases hm.request_cases hr with hold | ⟨hge, -⟩
      · exact h i r hold
      · have hlt := (List.getElem?_eq_some_iff.1 hr).1
        obtain ⟨f', a, es, kept, children, hf', hst⟩ :=
          hm.exists_gathering hf (Nat.ne_of_gt (Nat.lt_of_le_of_lt hge hlt))
        obtain ⟨r', q, hr', ht, -⟩ := (hs.flight hf hm).wired.exists_child hf' hst
          ((hm.children hf hf' hst i).2 ⟨hge, hlt⟩)
        rw [hr] at hr'; cases hr'
        exact .inr ⟨q, ht⟩

/-- A request for a path that is vetted goes on. -/
theorem Guarded.requestSteps (h : Guarded x c k len n₀ i₀ asked s) (hr : s.requests[i]? = some r)
    (ht : r.target = .logical p) (hvetted : r.caller = .fresh → Vetted x c n₀ asked s p)
    (hsteps : ReflTransGen (RequestStep i) s u) (hwatch : u.watch = s.watch) (hmir : Mirrored u [])
    (hlogical : Logical u) (hspot : Spotless i₀ u) (hfree : CollisionFree x u) :
    Guarded x c k len n₀ i₀ asked u := by
  refine h.moves (moves_of_requestSteps hsteps) (h.abreast.requestSteps (p := p) h.coherent
    (fun r' hr' => ?_) hsteps hfree) hspot hmir hwatch hlogical
  rw [hr] at hr'; cases hr'
  exact ⟨ht, hvetted⟩

/-- A fresh request looks for a kept result, and asks the host on the way. -/
theorem Guarded.request (h : Guarded x c k len n₀ i₀ asked s) (hr : s.requests[i]? = some r)
    (hfresh : r.caller = .fresh) (ht : r.target = .logical p)
    (hmir : Mirrored (s.request i r.target p) []) (hlogical : Logical (s.request i r.target p))
    (hspot : Spotless i₀ (s.request i r.target p)) (hfree : CollisionFree x (s.request i r.target p)) :
    ∃ c' new, Guarded x c' k len n₀ i₀ (asked ++ new) (s.request i r.target p) ∧
      (s.request i r.target p).checked = s.checked ++ new := by
  rcases requestSteps_request hr hfresh (h.unhurried.requests i r hr).1 (p := p) fun q hq => by
    rw [ht] at hq; cases hq; rfl with ⟨hsteps, g, hg⟩ | ⟨hsteps, d, hd⟩
  · -- nothing is kept of what is not registered
    have hnone : ¬ s.catalog.contains p = true := by
      simp [Catalog.contains, PathMap.contains, (Catalog.get_eq_error hg).1]
    obtain ⟨hwatch, hchecked⟩ := Prod.mk.inj ((host_request s i r.target p).trans (if_neg hnone))
    refine ⟨c, [], ?_, by rw [hchecked, List.append_nil]⟩
    rw [List.append_nil]
    refine h.requestSteps hr ht (fun _ _ e he => ?_) hsteps hwatch hmir hlogical hspot hfree
    exact absurd (h.contains (by rw [he]; simp)) hnone
  · have hreg := Catalog.contains_iff.2 ⟨d, Catalog.get_eq_ok_iff.1 hd⟩
    obtain ⟨hwatch, hchecked⟩ := Prod.mk.inj ((host_request s i r.target p).trans (if_pos hreg))
    obtain ⟨c', new, h', hchecked', hvetted⟩ := h.kept? p
    obtain ⟨-, -, -, hrequests⟩ := frame_of_lapses (kept?_cases s p).1
    exact ⟨c', new, h'.requestSteps (hrequests ▸ hr) ht (fun _ => hvetted) hsteps hwatch hmir hlogical
      hspot hfree, hchecked.trans hchecked'⟩

/-- A request goes on: the host is asked, if the request looks for a kept result. -/
theorem Guarded.runRequest (h : Guarded x c k len n₀ i₀ asked s)
    (hmir : Mirrored (s.runRequest i) []) (hlogical : Logical (s.runRequest i))
    (hspot : Spotless i₀ (s.runRequest i)) (hfree : CollisionFree x (s.runRequest i)) :
    ∃ c' new, Guarded x c' k len n₀ i₀ (asked ++ new) (s.runRequest i) ∧
      (s.runRequest i).checked = s.checked ++ new := by
  have hstay : s.runRequest i = s → ∃ c' new, Guarded x c' k len n₀ i₀ (asked ++ new) (s.runRequest i) ∧
      (s.runRequest i).checked = s.checked ++ new := fun hrun =>
    ⟨c, [], by rw [hrun, List.append_nil]; exact h, by rw [hrun, List.append_nil]⟩
  cases hr : s.requests[i]? with
  | none => exact hstay (by unfold Resolver.runRequest; rw [hr])
  | some r =>
      have hopen : r.caller.isDone ≠ true → ∃ p, r.target = .logical p := fun hopen =>
        (h.logical i r hr).resolve_left hopen
      rcases hcaller : r.caller with _ | n | o
      · obtain ⟨p, ht⟩ := hopen (by simp [hcaller, Caller.isDone, Caller.outcome?])
        have hrun : s.runRequest i = s.request i r.target p := by
          unfold Resolver.runRequest
          rw [hr]
          dsimp only
          rw [hcaller, (h.unhurried.requests i r hr).1]
          dsimp only
          rw [if_neg (by simp), ht]
        rw [hrun] at hmir hlogical hspot hfree ⊢
        exact h.request hr hcaller ht hmir hlogical hspot hfree
      · obtain ⟨p, ht⟩ := hopen (by simp [hcaller, Caller.isDone, Caller.outcome?])
        have hrun : s.runRequest i = s.takeAnswer i := by
          unfold Resolver.runRequest
          rw [hr]
          dsimp only
          rw [hcaller]
        obtain ⟨hwatch, hchecked⟩ := Prod.mk.inj (host_takeAnswer s i)
        rw [hrun] at hmir hlogical hspot hfree ⊢
        refine ⟨c, [], ?_, by rw [hchecked, List.append_nil]⟩
        rw [List.append_nil]
        refine h.requestSteps hr ht (fun hfresh => ?_) (requestSteps_takeAnswer hr) hwatch hmir hlogical
          hspot hfree
        rw [hcaller] at hfresh
        cases hfresh
      · refine hstay ?_
        unfold Resolver.runRequest
        rw [hr]
        dsimp only
        rw [hcaller]

/-- Everything that goes on by itself keeps what holds while an asset is resolved, as long as nothing has
failed and digests tell results apart. -/
theorem Guarded.act (h : Guarded x c k len n₀ i₀ asked s) {a : Action} (hadm : s.Admits a)
    (ha : a.Internal) (hmir : Mirrored (s.act a) []) (hlogical : Logical (s.act a))
    (hspot : Spotless i₀ (s.act a)) (hfree : CollisionFree x (s.act a)) :
    ∃ c' new, Guarded x c' k len n₀ i₀ (asked ++ new) (s.act a) ∧
      (s.act a).checked = s.checked ++ new := by
  have hmoves := moves_act hadm ha.patient
  -- all but requests ask the host nothing
  have hsame : Abreast x c k len n₀ i₀ asked (s.act a) → (s.act a).host = s.host →
      ∃ c' new, Guarded x c' k len n₀ i₀ (asked ++ new) (s.act a) ∧
        (s.act a).checked = s.checked ++ new := fun habreast hhost => by
    obtain ⟨hwatch, hchecked⟩ := Prod.mk.inj hhost
    refine ⟨c, [], ?_, by rw [hchecked, List.append_nil]⟩
    rw [List.append_nil]
    exact h.moves hmoves habreast hspot hmir hwatch hlogical
  cases a with
  | openGate g => exact hsame (h.abreast.quiet (.intro _ _ _ _ _ _ id)) rfl
  | closeGate g => exact hsame (h.abreast.quiet (.intro _ _ _ _ _ _ id)) rfl
  | step st =>
      cases st with
      | forget n =>
          obtain ⟨f, hf, hdone⟩ := exists_of_forget_mem_ready hadm
          have hfree' := hfree.of_results fun v hv => hv.move (.inl (.forget hf hdone))
          exact hsame (h.abreast.forget h.coherent hfree' hf hdone) rfl
      | request i => exact h.runRequest hmir hlogical hspot hfree
      | flight n =>
          exact hsame (h.abreast.flightSteps h.coherent h.unhurried (flightSteps_runFlight s n) hfree
            hspot) (host_runFlight s n)
  | _ => exact ha.elim

theorem Logical.lapse (h : Logical s) (hm : Lapse s u) : Logical u := h.congr hm.frame.2.2.2

/-- Where nothing has failed no path has lost its edges. -/
theorem Spotless.not_fails (h : Spotless i₀ s) (hun : Unhurried s) (p : String) : ¬ s.Fails p := by
  rintro ⟨n, f, hf, -, hst | ⟨g, hst⟩⟩
  · exact (hun.calls n f hf).2 hst
  · exact h.flights n f g hf hst

/-- A whole run of what goes on by itself keeps what holds while an asset is resolved. -/
theorem Guarded.run (h : Guarded x c k len n₀ i₀ asked s) (hrun : Run Action.Internal s t)
    (hspot : Spotless i₀ t) (hfree : CollisionFree x t) :
    ∃ c' new, Guarded x c' k len n₀ i₀ (asked ++ new) t ∧ t.checked = s.checked ++ new := by
  induction hrun with
  | refl => exact ⟨c, [], by rw [List.append_nil]; exact h, (List.append_nil _).symm⟩
  | @next t a hrun ha hadm ih =>
      have hmoves := moves_act hadm ha.patient
      have hnext : Run Action.Internal s (t.act a) := hrun.next ha hadm
      -- what has failed, or was hashed, before is there after
      have hback : Spotless i₀ t ∧ CollisionFree x t := by
        clear ih
        generalize t.act a = u at hmoves hspot hfree
        induction hmoves with
        | refl => exact ⟨hspot, hfree⟩
        | tail _ hm ih => exact ih (hspot.of_move hm) (hfree.of_results fun r hr => hr.move hm)
      obtain ⟨c₁, new₁, h₁, hchecked₁⟩ := ih hback.1 hback.2
      obtain ⟨-, hun, hlogical⟩ := hnext.induction_internal
        (P := fun u => Coherent u ∧ Unhurried u ∧ Logical u) ⟨h.coherent, h.unhurried, h.logical⟩
        (fun _ _ ⟨hs, hun, hl⟩ hm => ⟨hs.lapse hm, hun.move (.inl (.lapse hm)), hl.lapse hm⟩)
        fun _ _ ⟨hs, hun, hl⟩ hm => ⟨hs.move hm.move, hun.move hm.move, hl.advance hs hm⟩
      have hmir := hnext.mirrored h.coherent h.mirrored (hspot.not_fails hun)
      obtain ⟨c₂, new₂, h₂, hchecked₂⟩ := h₁.act hadm ha hmir hlogical hspot hfree
      rw [List.append_assoc] at h₂
      exact ⟨c₂, new₁ ++ new₂, h₂, by rw [hchecked₂, hchecked₁, List.append_assoc]⟩

/-! ### States in which nothing goes on -/

/-- All that an unmarked result depends on is kept. -/
def Closed (s : Resolver) : Prop :=
  ∀ p e, s.entries.get? p = some e → e.needsCheck = false →
    ∀ q ∈ Edge.targets e.resolved.edges, s.entries.get? q ≠ none

/-- The states of a resolver that is used by one caller, from a catalog on, with a host that says what is
outdated: sources change, and assets are resolved, with a result each time and a state of a kind. -/
inductive Attended (kind : Resolver → Prop) (x : Context) (c : Catalog) : Resolver → Prop
  | make (w : Watch) (answers : w.Exact c) : Attended kind x c (make x c (some w))
  | change {s : Resolver} (before : Attended kind x c s) (path : String)
      (result : Except LoadFault Bytes) (w : Watch) (answers : w.Exact (s.catalog.supply path result)) :
      Attended kind x c { s with catalog := s.catalog.supply path result, watch := some w }
  | resolve {s t : Resolver} {v : Resolved} (before : Attended kind x c s) (path : String)
      (run : Run Action.Internal (s.ask (.logical path)).2 t) (settled : t.Settled)
      (result : t.outcome? s.requests.length = some (.result (.ok v))) (fits : kind t) :
      Attended kind x c t

/-- What holds while nothing goes on, as long as nothing has failed. -/
structure Watched (x : Context) (c k : Catalog) (len : Nat) (s : Resolver) : Prop where
  guarded : Guarded x c k len s.flights.calls.length s.requests.length [] s
  empty : ∀ p, s.flights.slots.get? p = none
  ended : ∀ n f, s.flights.call? n = some f → ∃ v, f.status = .finished (.result (.ok v))
  answered : ∀ (i : Nat) r, s.requests[i]? = some r → r.caller.isDone = true

theorem not_flown_rest (p : String) : ¬ s.Flown s.flights.calls.length p := by
  rintro ⟨n, f, hn, hf, -⟩
  exact absurd (Table.lt_of_call?_eq_some hf) (Nat.not_lt.2 hn)

theorem not_seen_rest (p : String) : ¬ s.Seen s.flights.calls.length [] p := by
  rintro (hp | hp)
  · cases hp
  · exact not_flown_rest p hp

/-- While nothing goes on, what a kept result includes is kept, and what it needs can be used if it can
itself. -/
theorem Stands.rest {e : Entry} (h : Stands x c s.flights.calls.length [] s p e) :
    (∀ d ∈ e.resolved.edges, d.kind = .include → s.entries.get? d.target ≠ none) ∧
      (e.needsCheck = false → ∀ q ∈ Edge.targets e.resolved.edges, ∃ v, s.Usable q v) :=
  h.resolve_left fun ⟨_, hseen⟩ => not_seen_rest p hseen.self

theorem Watched.make {w : Watch} (hlen : ∀ b, (x.hash b).length = len) (hc : c.Keyed)
    (hsteady : c.Steady) (hw : w.Exact c) : Watched x c c len (make x c (some w)) where
  guarded :=
    { abreast :=
        { lengths := hlen
          keyed := hc
          steady := hsteady
          alike := .refl c
          catalog := rfl
          sound := .make x c (some w)
          absent := fun p _ => rfl
          seen := fun p hp => absurd hp (not_seen_rest p)
          noted := fun p hp => by cases hp
          results := fun p e he => by cases he
          made := fun p e he => by cases he
          formed := fun r ⟨n, f, hf, _⟩ => by cases hf
          answers := .beyond (Nat.le_refl _) (Nat.le_refl _)
          stands := fun p e he => by cases he
          met := fun p r ⟨e, he, _⟩ => by cases he
          checks := fun n f hf => by cases hf }
      coherent := .make hc (some w)
      unhurried := .make x c (some w)
      spotless := ⟨fun n f g hf => (by cases hf), fun i g _ ho => (by cases ho)⟩
      mirrored := .make x c (some w)
      constant := hsteady
      watched := ⟨w, rfl, hw⟩
      logical := fun i r hr => by cases hr }
  empty p := rfl
  ended n f hf := by cases hf
  answered i r hr := by cases hr

/-- What holds at the end of a run with which all has ended well is said of what is to come. -/
theorem Guarded.rest (h : Guarded x c k len n₀ i₀ asked s) (hclosed : s.Closed)
    (hempty : ∀ p, s.flights.slots.get? p = none)
    (hended : ∀ n f, s.flights.call? n = some f → ∃ v, f.status = .finished (.result (.ok v)))
    (hanswered : ∀ (i : Nat) r, s.requests[i]? = some r → r.caller.isDone = true) :
    Watched x c k len s := by
  have ha := h.abreast
  have husable : ∀ p e, s.entries.get? p = some e → e.needsCheck = false →
      ∀ q ∈ Edge.targets e.resolved.edges, ∃ v, s.Usable q v := fun p e he hn q hq =>
    (ha.met p _ ⟨e, he, hn, rfl⟩ q hq).resolve_right fun ⟨hnone, _⟩ => hclosed p e he hn q hq hnone
  have habreast : Abreast x c k len s.flights.calls.length s.requests.length [] s :=
    { lengths := ha.lengths
      keyed := ha.keyed
      steady := ha.steady
      alike := ha.alike
      catalog := ha.catalog
      sound := ⟨ha.sound.held, .rest (s := s) hempty hended, .beyond (Nat.le_refl _) (Nat.le_refl _)⟩
      absent := ha.absent
      seen := fun p hp => absurd hp (not_seen_rest p)
      noted := ha.noted
      results := ha.results
      made := ha.made
      formed := ha.formed
      answers := .beyond (Nat.le_refl _) (Nat.le_refl _)
      met := fun p v ⟨e, he, hn, hv⟩ q hq => .inl (husable p e he hn q (hv ▸ hq))
      stands := fun p e he => .inr ⟨fun d hd hk => ?_, husable p e he⟩
      checks := fun n f hf hrun => by
        obtain ⟨v, hv⟩ := hended n f hf
        exact absurd hv (not_finished_of_isRunning hrun _) }
  · refine ⟨⟨habreast, h.coherent, h.unhurried, ⟨h.spotless.flights, fun i g hi ho => ?_⟩, h.mirrored,
      h.constant, h.watched, h.logical⟩, hempty, hended, hanswered⟩
    unfold outcome? at ho
    rw [List.getElem?_eq_none hi] at ho
    cases ho
  · rcases ha.stands p e he with ⟨hn, -⟩ | ⟨hinc, -⟩
    · exact hclosed p e he hn d.target (Edge.mem_targets.2 ⟨d, hd, rfl⟩)
    · exact hinc d hd hk

/-- All that unmarked results depend on is kept, if all that has had a flight is. -/
theorem Guarded.closed (h : Guarded x c k len n₀ i₀ asked s)
    (hkept : ∀ p, s.Flown n₀ p → s.entries.get? p ≠ none) : s.Closed := by
  intro p e he hn q hq
  rcases h.abreast.met p _ ⟨e, he, hn, rfl⟩ q hq with ⟨v, e', he', -⟩ | ⟨-, hflown⟩
  · rw [he']
    simp
  · exact hkept q hflown

/-! ### Changes -/

/-- The sources that kept results were made of, and for what is not kept the sources as they have come to
be. -/
def kept (s : Resolver) (c k : Catalog) : Catalog := k.renew c s.entries.keys

theorem get?_kept (halike : c.Alike k) : (s.kept c k).entries.get? p =
    if (s.entries.get? p).isSome then c.entries.get? p else k.entries.get? p := by
  rw [Resolver.kept, Catalog.get?_renew halike.symm]
  simp only [PathMap.mem_keys, PathMap.mem_iff_get?_isSome]

theorem get?_kept_of_ne_none (halike : c.Alike k) (hp : s.entries.get? p ≠ none) :
    (s.kept c k).entries.get? p = c.entries.get? p := by
  rw [get?_kept halike, if_pos (Option.isSome_iff_ne_none.2 hp)]

/-- A result that can be used, and all that it needs, was made of sources that stay with it. -/
theorem Watched.same_of_usable (h : Watched x c k len s) {k' : Catalog} (halike : c.Alike k')
    (hu : s.Usable p v) : Along (x.Needs c) (c.Same (s.kept c k')) p := by
  intro q hpq
  induction hpq using ReflTransGen.head_induction_on generalizing v with
  | refl =>
      obtain ⟨e, he, -⟩ := hu
      exact .of_eq (get?_kept_of_ne_none halike (by rw [he]; simp))
  | @head a a' haa' _ ih =>
      obtain ⟨e, he, hn, rfl⟩ := hu
      obtain ⟨_, _, hr, hmem⟩ := haa'
      obtain ⟨-, rfl⟩ := hr.unique (h.guarded.abreast.sound.held.reads a e he)
      obtain ⟨v', hv'⟩ := (h.guarded.abreast.stands a e he).rest.2 hn a' hmem
      exact ih hv'

theorem Watched.sound_kept (h : Watched x c k len s) {k' : Catalog} (w : Watch) (halike : c.Alike k') :
    Sound x (s.kept c k') s.flights.calls.length s.requests.length
      ({ s with catalog := k', watch := some w }.upon (s.kept c k')) := by
  have hheld := h.guarded.abreast.sound.held
  have hkept : c.Alike (s.kept c k') := halike.trans (Catalog.Alike.renew halike.symm)
  have hreads : ∀ p e, s.entries.get? p = some e →
      x.Reads (s.kept c k') p e.asset e.resolved.edges := fun p e he =>
    (hheld.reads p e he).of_eq hkept (get?_kept_of_ne_none halike (by rw [he]; simp))
  refine ⟨⟨hheld.context, rfl, fun p q hpq => ?_, hreads, fun p e he hn => ?_, fun n f hf => ?_⟩,
    .rest (s := s) h.empty h.ended, .beyond (Nat.le_refl _) (Nat.le_refl _)⟩
  · obtain ⟨e, he, hq⟩ := h.guarded.mirrored.exists_entry_of_adjacent h.ended hpq
    exact ⟨e.asset, e.resolved.edges, hreads p e he, hq⟩
  · exact (hheld.solves p e he hn).same hkept (h.same_of_usable halike ⟨e, he, hn, rfl⟩)
  · obtain ⟨v, hv⟩ := h.ended n f hf
    rw [hv]
    trivial

/-- Sources change without a word. -/
theorem Watched.change (h : Watched x c k len s) {k' : Catalog} {w : Watch} (hkeyed : k'.Keyed)
    (hsteady : k'.Steady) (halike : s.catalog.Alike k') (hw : w.Exact k') :
    Watched x (s.kept c k') k' len { s with catalog := k', watch := some w } := by
  have ha := h.guarded.abreast
  have hlike : c.Alike k' := ha.alike_catalog.trans halike
  have hkept : c.Alike (s.kept c k') := hlike.trans (Catalog.Alike.renew hlike.symm)
  have hsame : ∀ {p}, s.entries.get? p ≠ none → c.Same (s.kept c k') p := fun hp =>
    .of_eq (get?_kept_of_ne_none hlike hp)
  refine ⟨⟨?_, ⟨hkeyed, h.guarded.coherent.graph, h.guarded.coherent.wired, h.guarded.coherent.tended⟩,
    h.guarded.unhurried.congr rfl rfl, h.guarded.spotless.congr rfl rfl,
    ⟨h.guarded.mirrored.entry, h.guarded.mirrored.fresh, h.guarded.mirrored.other⟩, hsteady,
    ⟨w, rfl, hw⟩, h.guarded.logical⟩, h.empty, h.ended, h.answered⟩
  exact
    { lengths := ha.lengths
      keyed := hkeyed.renew ha.keyed hlike.symm
      steady := hsteady.renew ha.steady hlike.symm
      alike := hkept.symm.trans hlike
      catalog := rfl
      sound := h.sound_kept w hlike
      absent := fun p hp => by
        rw [get?_kept hlike, show s.entries.get? p = none from hp]
        rfl
      seen := fun p hp => absurd hp (not_seen_rest p)
      noted := ha.noted
      results := ha.results
      made := fun p e he => (ha.made p e he).same hkept fun d hd hk =>
        hsame ((ha.stands p e he).rest.1 d hd hk)
      formed := fun r hr => (ha.formed r hr).alike hkept
      answers := .beyond (Nat.le_refl _) (Nat.le_refl _)
      stands := fun p e he => .inr (ha.stands p e he).rest
      met := fun p v hv q hq =>
        .inl ((ha.met p v hv q hq).resolve_right fun ⟨_, hflown⟩ => not_flown_rest q hflown)
      checks := fun n f hf hrun => by
        obtain ⟨v, hv⟩ := h.ended n f hf
        exact absurd hv (not_finished_of_isRunning hrun _) }

/-! ### Resolving an asset -/

/-- What holds when an asset is asked for while nothing goes on. -/
theorem Watched.ask (h : Watched x c k len s) (hfree : CollisionFree x s) (q : String) :
    Guarded x c k len s.flights.calls.length s.requests.length [] (s.ask (.logical q)).2 := by
  have hm : Shift s (s.ask (.logical q)).2 := .ask _
  have hg := h.guarded
  refine hg.moves (.single (.inl hm)) ?_ ⟨hg.spotless.flights, fun i g hi ho => ?_⟩
    (hg.mirrored.shift hg.coherent hm) rfl fun i r hr => ?_
  · refine hg.abreast.shift hg.coherent hfree hm (.ask (s := s.upon c) _) rfl rfl (fun g hg' => ?_)
      (.append (.beyond (Nat.le_refl _) (Nat.le_refl _)) fun r hr => by rw [List.mem_singleton.1 hr])
    exact absurd (Table.lt_of_call?_eq_some hg') (Nat.lt_irrefl _)
  · obtain ⟨r, hr, hd⟩ := outcome?_eq_some_iff.1 ho
    have hr' : (s.requests ++ [⟨.logical q, .fresh, false⟩])[i]? = some r := hr
    rw [List.getElem?_append_right hi] at hr'
    rw [List.mem_singleton.1 (List.mem_of_getElem? hr')] at hd
    cases hd
  · have hr' : (s.requests ++ [⟨.logical q, .fresh, false⟩])[i]? = some r := hr
    rcases List.mem_append.1 (List.mem_of_getElem? hr') with hmem | hmem
    · obtain ⟨j, hj⟩ := List.mem_iff_getElem?.1 hmem
      exact hg.logical j r hj
    · rw [List.mem_singleton.1 hmem]
      exact .inr ⟨q, rfl⟩

/-- Where the first request that can be blamed has a result, nothing has failed. -/
theorem Spotless.of_blamed (h : Blamed i₀ s) (hok : s.IsOk i₀) : Spotless i₀ s := by
  obtain ⟨hall, hended⟩ := h.all_ok hok
  refine ⟨fun n f g hf hst => ?_, fun i g hi ho => ?_⟩
  · obtain ⟨w, hw⟩ := hended n f hf
    rw [hst] at hw; cases hw
  · obtain ⟨r, hr, hd⟩ := outcome?_eq_some_iff.1 ho
    obtain ⟨r', w, hr', hw⟩ := hall i hi (List.getElem?_eq_some_iff.1 hr).1
    rw [hr] at hr'; cases hr'
    rw [hd] at hw; cases hw

/-- What holds when an asset has been resolved with a result: nothing has failed on the way. -/
theorem Watched.run (h : Watched x c k len s) {q : String}
    (hrun : Run Action.Internal (s.ask (.logical q)).2 t)
    (hok : t.outcome? s.requests.length = some (.result (.ok v))) (hfree : CollisionFree x t) :
    Blamed s.requests.length t ∧
      (∃ r, t.requests[s.requests.length]? = some r ∧ r.target = .logical q ∧
        r.caller = .done (.result (.ok v))) ∧
      ∃ c' new, Guarded x c' k len s.flights.calls.length s.requests.length new t ∧
        t.checked = s.checked ++ new := by
  have hask := h.ask (hfree.of_results fun r hr => hrun.results hr) q
  have hfirst : (s.ask (.logical q)).2.requests[s.requests.length]?
      = some ⟨.logical q, .fresh, false⟩ := by
    show (s.requests ++ [_])[s.requests.length]? = _
    simp
  -- whatever fails on the way is blamed on the request, which goes on to be for the same path
  obtain ⟨-, hblamed, r, hr, ht⟩ := hrun.induction_internal
    (P := fun u => Unhurried u ∧ Blamed s.requests.length u ∧
      ∃ r, u.requests[s.requests.length]? = some r ∧ r.target = .logical q)
    ⟨hask.unhurried, .ask h.answered h.ended _, _, hfirst, rfl⟩
    (fun _ _ ⟨hun, hblamed, hr⟩ hm => by
      obtain ⟨-, -, hf, hrs⟩ := hm.frame
      exact ⟨hun.congr hf hrs, hblamed.congr hf hrs, by rw [hrs]; exact hr⟩)
    fun _ _ ⟨hun, hblamed, r, hr, ht⟩ hm => by
      obtain ⟨r', hr', ht'⟩ := hm.exists_request hr
      exact ⟨hun.move hm.move, hblamed.advance hun hm, r', hr', ht'.trans ht⟩
  obtain ⟨r', hr', hd⟩ := outcome?_eq_some_iff.1 hok
  rw [hr] at hr'; cases hr'
  obtain ⟨c', new, hg, hchecked⟩ := hask.run hrun (.of_blamed hblamed ⟨r, v, hr, hd⟩) hfree
  exact ⟨hblamed, ⟨r, hr, ht, hd⟩, c', new, hg, hchecked⟩

/-- What holds of the states of a resolver with a host that says what is outdated, as long as digests
tell apart what was hashed and all that unmarked results depend on is kept. -/
theorem Attended.watched {c₀ : Catalog} (h : Attended Closed x c₀ s) (hlen : ∀ b, (x.hash b).length = len)
    (hc : c₀.Keyed) (hsteady : c₀.Steady) (hfree : CollisionFree x s) :
    ∃ c k, Watched x c k len s := by
  induction h with
  | make w hw => exact ⟨c₀, c₀, .make hlen hc hsteady hw⟩
  | @change s _ p result w hw ih =>
      obtain ⟨c, k, hwatched⟩ := ih hfree
      have hg := hwatched.guarded
      have hconstant : s.catalog.Steady := fun q d hd => hg.constant q d (hg.abreast.catalog ▸ hd)
      exact ⟨_, _, hwatched.change hg.coherent.keyed.supply hconstant.supply
        (s.catalog.alike_supply p result) hw⟩
  | @resolve s t v _ q hrun hset hok hclosed ih =>
      obtain ⟨c, k, hwatched⟩ := ih (hfree.of_results fun r hr => hrun.results hr)
      obtain ⟨hblamed, ⟨r, hr, -, hd⟩, c', new, hg, -⟩ := hwatched.run hrun hok hfree
      obtain ⟨hempty, hended, hanswered⟩ := hblamed.rest hg.coherent hset ⟨r, v, hr, hd⟩
      exact ⟨c', k, hg.rest hclosed hempty hended hanswered⟩

/-! ### A sample of sources that change

`z` refers to `m`, and `m` includes `y`, whose source gives something else each time. First `y` is
resolved, and then, after each change, `z`. -/

instance (s : Resolver) : Decidable s.Closed :=
  decidable_of_iff (∀ b ∈ s.entries.bindings, b.2.needsCheck = false →
      ∀ q ∈ Edge.targets b.2.resolved.edges, (s.entries.get? q).isSome) <| by
    refine ⟨fun h p e he hn q hq => ?_, fun h b hb hn q hq => ?_⟩
    · exact Option.isSome_iff_ne_none.1 (h (p, e) (PathMap.get?_eq_some_iff.1 he) hn q hq)
    · exact Option.isSome_iff_ne_none.2 (h b.1 b.2 (PathMap.get?_eq_some_iff.2 hb) hn q hq)

namespace Dropped

/-- The three assets. -/
def catalog : Catalog :=
  (((∅ : Catalog).add
    ⟨"y", .dynamic (.constant (.ok (Bytes.ofText "one"))) none, ({} : Choices).options true,
      by decide +kernel⟩).add
    ⟨"m", .static (Bytes.ofText "{{: include:y :}}"), ({} : Choices).options false,
      by decide +kernel⟩).add
    ⟨"z", .static (Bytes.ofText "{{: path:m :}}"), ({} : Choices).options false, by decide +kernel⟩

theorem keyed_catalog : catalog.Keyed := ((Catalog.keyed_empty.add _).add _).add _

theorem steady_catalog : catalog.Steady :=
  ((Catalog.steady_empty.add fun _ => rfl).add fun _ => rfl).add fun _ => rfl

/-- The state after the source of `y` has changed. -/
def changed (s : Resolver) (text : String) : Resolver :=
  { s with
    catalog := s.catalog.supply "y" (.ok (Bytes.ofText text))
    watch := some (.of (s.catalog.supply "y" (.ok (Bytes.ofText text)))) }

/-- The asset `y` is resolved. -/
def first : List Action :=
  [.step (.request 0), .step (.flight 0), .step (.forget 0), .step (.request 0)]

/-- The asset `z` is resolved for the first time. What is kept of `y` is found to be outdated when `m`
asks for it. -/
def second : List Action :=
  [.step (.request 1), .step (.flight 1), .step (.request 2), .step (.flight 2), .step (.request 3),
    .step (.flight 3), .step (.forget 3), .step (.request 3), .step (.flight 2), .step (.forget 2),
    .step (.request 2), .step (.flight 1), .step (.forget 1), .step (.request 1)]

/-- And for the second time. -/
def third : List Action := [.step (.request 4)]

/-- The state before anything has been resolved. -/
def made : Resolver := make Sample.context catalog (some (.of catalog))

/-- The state after `y` has been resolved, and has changed. -/
def outdated : Resolver := changed ((made.ask (.logical "y")).2.play [] first).1 "two"

/-- The state after `z` has been resolved. -/
def resolved : Resolver := ((outdated.ask (.logical "z")).2.play [] second).1

/-- The state after `y` has changed once more. -/
def again : Resolver := changed resolved "three"

/-- The state after `z` has been resolved once more. -/
def served : Resolver := ((again.ask (.logical "z")).2.play [] third).1

/-- All this can happen, and `y` is resolved before everything comes to rest. -/
theorem playable : (made.ask (.logical "y")).2.Playable first ∧
    (outdated.ask (.logical "z")).2.Playable second ∧ (again.ask (.logical "z")).2.Playable third ∧
    Sample.succeeds ((made.ask (.logical "y")).2.play [] first).1 0 = true ∧
    ((made.ask (.logical "y")).2.play [] first).1.Settled := by
  decide +kernel

theorem run_first : Run Action.Internal (made.ask (.logical "y")).2
    ((made.ask (.logical "y")).2.play [] first).1 :=
  (Course.refl.play playable.1 (by simp [first, Action.Internal])).run

theorem run_second : Run Action.Internal (outdated.ask (.logical "z")).2 resolved :=
  (Course.refl.play playable.2.1 (by simp [second, Action.Internal])).run

theorem run_third : Run Action.Internal (again.ask (.logical "z")).2 served :=
  (Course.refl.play playable.2.2.1 (by simp [third, Action.Internal])).run

theorem attended_outdated {kind : Resolver → Prop}
    (hkind : kind ((made.ask (.logical "y")).2.play [] first).1) :
    Attended kind Sample.context catalog outdated := by
  obtain ⟨-, -, -, hsucceeds, hsettled⟩ := playable
  obtain ⟨v, hv⟩ := Sample.exists_of_succeeds hsucceeds
  exact .change (.resolve (.make _ (Watch.exact_of _)) "y" run_first hsettled hv hkind) "y" _ _
    (Watch.exact_of _)

end Dropped

/-! ### What is resolved next -/

/-- Whoever uses a resolver alone, with a host that says what is outdated, gets for each asset what a
snapshot of the sources as they are holds; and all that the asset needs has come up by then: the host
was asked about it, or it was resolved anew. This is so as long as all is kept that unmarked results
depend on, and it goes on to be, unless something that is resolved anew is dropped when its flight
ends. -/
theorem fresh_of_attended {c₀ : Catalog} (hc : c₀.Keyed) (hsteady : c₀.Steady)
    (hlen : ∀ b, (x.hash b).length = len) (h : Attended Closed x c₀ s) {q : String}
    (hrun : Run Action.Internal (s.ask (.logical q)).2 t)
    (hok : t.outcome? s.requests.length = some (.result (.ok v))) (hfree : CollisionFree x t) :
    (∀ snap, (Snapshot.build x s.catalog).1 = .ok snap →
      ∃ r, snap.resolve q = .ok r ∧ v = { r with compressed := none }) ∧
    (∀ p, ReflTransGen (x.Needs s.catalog) q p →
      p ∈ t.checked.drop s.checked.length ∨ t.Flown s.flights.calls.length p) ∧
    ((∀ p, t.Flown s.flights.calls.length p → t.entries.get? p ≠ none) → t.Closed) := by
  obtain ⟨c, k, hwatched⟩ := h.watched hlen hc hsteady (hfree.of_results fun r hr => hrun.results hr)
  obtain ⟨-, ⟨r, hr, ht, hd⟩, c', new, hg, hchecked⟩ := hwatched.run hrun hok hfree
  have hkeyed := hwatched.guarded.coherent.keyed
  have hcatalog : s.catalog.entries = k.entries := hwatched.guarded.abreast.catalog
  have hsteady' : s.catalog.Steady := fun p d hd => hg.constant p d (hcatalog ▸ hd)
  have halike : c'.Alike s.catalog := hg.abreast.alike.trans (.of_entries hcatalog)
  -- all that the asset needs has come up, so the sources that its result was made of are as they are
  obtain ⟨-, hseen, -⟩ := hg.abreast.answers.requests _ r _ q (Nat.le_refl _) hr hd ht v rfl
  have hsame : Along (x.Needs c') (c'.Same s.catalog) q := hseen.mono fun p hp => by
    have hp' := hg.abreast.seen p hp
    unfold Catalog.Same at hp' ⊢
    rwa [hcatalog]
  have hsolves : x.Solves c' q v :=
    hg.abreast.sound.answers.requests _ r _ q (Nat.le_refl _) hr hd ht
  have hnow : x.Solves s.catalog q v := hsolves.same halike hsame
  refine ⟨fun snap hsnap => ?_, fun p hp => ?_, hg.closed⟩
  · obtain ⟨⟨d, raw, hd, -⟩, -⟩ := hnow
    obtain ⟨r', hr', hsol⟩ := Snapshot.solves_of_build hkeyed hsteady' hsnap
      (Catalog.contains_iff.2 ⟨d, hd⟩)
    exact ⟨r', hr', (hsolves.same halike hsame).unique hsol⟩
  · have hdrop : t.checked.drop s.checked.length = new := by rw [hchecked, List.drop_left]
    rw [hdrop]
    exact hseen p (Context.needs_of_same halike hsame hp)

/-- In the sample: with `y` outdated, `z` is resolved to what a snapshot of the sources holds. -/
theorem fresh_resolved : ∃ snap r v,
    (Snapshot.build Sample.context Dropped.outdated.catalog).1 = .ok snap ∧
    Dropped.resolved.outcome? Dropped.outdated.requests.length = some (.result (.ok v)) ∧
    snap.resolve "z" = .ok r ∧ v = { r with compressed := none } := by
  have hbuild : (Snapshot.build Sample.context Dropped.outdated.catalog).1.isOk = true := by
    decide +kernel
  obtain ⟨snap, hsnap⟩ :
      ∃ snap, (Snapshot.build Sample.context Dropped.outdated.catalog).1 = .ok snap := by
    generalize (Snapshot.build Sample.context Dropped.outdated.catalog).1 = b at hbuild ⊢
    match b, hbuild with
    | .ok snap, _ => exact ⟨snap, rfl⟩
  obtain ⟨v, hv⟩ := Sample.exists_of_succeeds (s := Dropped.resolved)
    (i := Dropped.outdated.requests.length) (by decide +kernel)
  obtain ⟨hfresh, -⟩ := fresh_of_attended Dropped.keyed_catalog Dropped.steady_catalog
    Sample.length_hash (Dropped.attended_outdated (by decide +kernel)) Dropped.run_second
    hv (Change.collisionFree_of_hashed (by decide +kernel))
  obtain ⟨r, hr, he⟩ := hfresh snap hsnap
  exact ⟨snap, r, v, hsnap, hv, hr, he⟩

/-- What a snapshot of the sources holds for a path. -/
def built? (x : Context) (c : Catalog) (p : String) : Option Resolved :=
  match (Snapshot.build x c).1 with
  | .ok snap => (snap.resolve p).toOption
  | .error _ => none

theorem exists_of_built? (h : built? x c p = some v) :
    ∃ snap, (Snapshot.build x c).1 = .ok snap ∧ snap.resolve p = .ok v := by
  unfold built? at h
  split at h
  · next snap hsnap =>
      cases hr : snap.resolve p with
      | error g => rw [hr] at h; cases h
      | ok r => rw [hr] at h; cases h; exact ⟨snap, hsnap, hr⟩
  · cases h

/-- A kept result may be used though what it needs is outdated: `y` was found to be outdated while `m` was
in flight, so `m` was dropped when its flight ended, and `z`, which refers to it, was left to be used. When
`y` has changed once more, `z` is answered with what was kept, the host is not asked about `y`, and a
snapshot of the sources holds something else. -/
theorem exists_attended_outdated : ∃ s t v snap r,
    Attended (fun _ => True) Sample.context Dropped.catalog s ∧
    Run Action.Internal (s.ask (.logical "z")).2 t ∧ t.Settled ∧ CollisionFree Sample.context t ∧
    t.outcome? s.requests.length = some (.result (.ok v)) ∧
    (Snapshot.build Sample.context s.catalog).1 = .ok snap ∧ snap.resolve "z" = .ok r ∧
    v.content ≠ r.content ∧ t.flights.calls.length = s.flights.calls.length ∧
    s.entries.get? "y" ≠ none ∧ t.checked.drop s.checked.length = ["z"] := by
  obtain ⟨v₂, hv₂⟩ := Sample.exists_of_succeeds (s := Dropped.resolved)
    (i := Dropped.outdated.requests.length) (by decide +kernel)
  have hattended : Attended (fun _ => True) Sample.context Dropped.catalog Dropped.again :=
    .change (.resolve (Dropped.attended_outdated trivial) "z" Dropped.run_second
      (by decide +kernel) hv₂ trivial) "y" _ _ (Watch.exact_of _)
  obtain ⟨v, hv⟩ := Option.isSome_iff_exists.1
    (show (Dropped.served.result? Dropped.again.requests.length).isSome = true by decide +kernel)
  obtain ⟨r, hr⟩ := Option.isSome_iff_exists.1
    (show (built? Sample.context Dropped.again.catalog "z").isSome = true by decide +kernel)
  have hcontent : (Dropped.served.result? Dropped.again.requests.length).map (·.content)
      ≠ (built? Sample.context Dropped.again.catalog "z").map (·.content) := by decide +kernel
  rw [hv, hr, Option.map_some, Option.map_some] at hcontent
  obtain ⟨snap, hsnap, hr⟩ := exists_of_built? hr
  have hkept : (Dropped.again.entries.get? "y").isSome = true := by decide +kernel
  exact ⟨Dropped.again, Dropped.served, v, snap, r, hattended, Dropped.run_third, by decide +kernel,
    Change.collisionFree_of_hashed (by decide +kernel), outcome?_of_result? hv, hsnap, hr,
    fun he => hcontent (congrArg some he), by decide +kernel, Option.isSome_iff_ne_none.1 hkept,
    by decide +kernel⟩

end HashedAssets.Resolver
