import HashedAssets.Proofs.Resolver.Levels

/-!
# Everything comes to an end

Whatever goes on by itself, in whatever order, at some time nothing can go on any more.

* `Follows`: what one piece of what goes on leads to; `Ends`: no sequence of pieces goes on forever;
* `runRequest_ne`, `runFlight_ne`: a piece that can go on changes something;
* `Graded.follows`: it leaves less work to be done;
* `Run.ends`: each state of a run of patient callers is one from which everything ends;
* `Ends.exists_settled`: and then nothing can go on.
-/

namespace HashedAssets.Resolver

open SingleFlight Relation

/-- The first state comes of the second by a piece of what goes on by itself. -/
def Follows (t s : Resolver) : Prop := ∃ x ∈ s.ready, t = s.step x

/-- No sequence of pieces goes on forever. -/
def Ends (s : Resolver) : Prop := Acc Follows s

variable {s t u : Resolver} {n : CallId} {c : Flight} {i : RequestId} {r : Request}
  {ok : Action → Prop}

/-! ### Requests that can go on -/

/-- A request whose answer is there takes it. -/
theorem exists_takeAnswer (hr : s.requests[i]? = some r) (hw : r.caller = .waiting n)
    {o : Outcome Answer} (ho : s.flights.answer? r.cancelled n = some o) :
    ∃ r', (s.takeAnswer i).requests[i]? = some r' ∧ r'.caller.isDone = true := by
  obtain ⟨rs, hleave, hrs, -⟩ := leave_eq s n
  obtain ⟨r₁, hr₁, -, -⟩ := hrs.symm.exists_eq hr
  have hset : ∀ o, ∃ r', ((s.leave n).setCaller i (.done o)).requests[i]? = some r' ∧
      r'.caller.isDone = true := fun o => by
    refine ⟨{ r₁ with caller := .done o }, ?_, rfl⟩
    rw [getElem?_setCaller, if_pos rfl, hleave]
    exact congrArg _ hr₁
  unfold takeAnswer
  simp only [hr, hw, ho]
  cases o <;> exact hset _

/-- A request that waits does not ask once more. -/
theorem takeAnswer_ne_fresh (hr : s.requests[i]? = some r) (hw : r.caller = .waiting n)
    {r' : Request} (hr' : (s.takeAnswer i).requests[i]? = some r') : r'.caller ≠ .fresh := by
  intro hfresh
  cases ho : s.flights.answer? r.cancelled n with
  | none =>
      unfold takeAnswer at hr'
      simp only [hr, hw, ho] at hr'
      cases hr'
      rw [hw] at hfresh
      cases hfresh
  | some o =>
      obtain ⟨r'', hr'', hd⟩ := exists_takeAnswer hr hw ho
      rw [hr'] at hr''; cases hr''
      rw [hfresh] at hd
      cases hd

theorem setCaller_ne_fresh (hr : s.requests[i]? = some r) {y : Caller Answer} (hy : y ≠ .fresh)
    {r' : Request} (hr' : (s.setCaller i y).requests[i]? = some r') : r'.caller ≠ .fresh := by
  rw [getElem?_setCaller, if_pos rfl, hr] at hr'
  cases hr'
  exact hy

theorem request_ne_fresh (hr : s.requests[i]? = some r) {target : Target} {p : String} {r' : Request}
    (hr' : (s.request i target p).requests[i]? = some r') : r'.caller ≠ .fresh := by
  unfold request at hr'
  split at hr'
  · exact setCaller_ne_fresh hr (by simp) hr'
  · obtain ⟨hlapses, -⟩ := kept?_cases s p
    obtain ⟨-, -, -, hrequests⟩ := frame_of_lapses hlapses
    generalize hk : s.kept? p = k at hr' hrequests
    have hr₁ : k.2.requests[i]? = some r := hrequests ▸ hr
    split at hr'
    · exact setCaller_ne_fresh hr₁ (by simp) hr'
    · next v =>
        generalize v.flights.attach p .launched = begun at hr'
        refine takeAnswer_ne_fresh (r := { r with caller := .waiting begun.1 }) ?_ rfl hr'
        rw [getElem?_setCaller, if_pos rfl]
        exact congrArg _ hr₁

/-- A request that can go on does. -/
theorem runRequest_ne (hr : s.requests[i]? = some r) (hready : s.requestReady r = true) :
    (s.runRequest i).requests ≠ s.requests := by
  intro heq
  have hr' : (s.runRequest i).requests[i]? = some r := heq ▸ hr
  unfold requestReady at hready
  unfold runRequest at hr'
  rw [hr] at hr'
  dsimp only at hr'
  split at hready
  · next hfresh =>
      rw [hfresh] at hr'
      dsimp only at hr'
      refine absurd hfresh ?_
      split at hr'
      · exact setCaller_ne_fresh hr (by simp) hr'
      · split at hr'
        · exact request_ne_fresh hr hr'
        · split at hr'
          · exact request_ne_fresh hr hr'
          · exact setCaller_ne_fresh hr (by simp) hr'
  · next n hw =>
      rw [hw] at hr'
      dsimp only at hr'
      obtain ⟨o, ho⟩ := Option.isSome_iff_exists.1 hready
      obtain ⟨r'', hr'', hd⟩ := exists_takeAnswer hr hw ho
      rw [hr'] at hr''; cases hr''
      rw [hw] at hd
      cases hd
  · cases hready

/-! ### Flights that can go on -/

/-- A flight has come that far, or further. -/
def Reached (s : Resolver) (n : CallId) (far : Nat) : Prop :=
  ∃ c, s.flights.call? n = some c ∧ far ≤ rank c.status

variable {far : Nat} {p : String} {a : Prepared} {es : List Edge} {kept : Option Resolved}

theorem Reached.mono (h : s.Reached n far) {near : Nat} (hle : near ≤ far) : s.Reached n near := by
  obtain ⟨c, hc, hfar⟩ := h
  exact ⟨c, hc, Nat.le_trans hle hfar⟩

theorem reached_finish {o : Outcome Answer} (h : s.Reached n 0) : (s.finish n o).Reached n 3 := by
  obtain ⟨c, hc, -⟩ := h
  exact ⟨_, call?_finish_self hc o, Nat.le_refl 3⟩

theorem reached_progress {w : Phase} (h : s.Reached n 0) :
    Reached { s with flights := s.flights.progress n w } n (rank (.running w)) := by
  obtain ⟨c, hc, -⟩ := h
  refine ⟨{ c with status := .running w }, ?_, Nat.le_refl _⟩
  rw [Table.call?_progress, if_pos rfl, hc]
  rfl

theorem reached_fail {f : Failure} (h : s.Reached n 0) : (s.fail n p f).Reached n 3 := by
  unfold fail
  dsimp only
  split <;> exact reached_finish h

theorem reached_succeed {r : Resolved} (h : s.Reached n 0) : (s.succeed n p r).Reached n 3 := by
  unfold succeed
  dsimp only
  split <;> exact reached_finish h

theorem reached_conclude {m : PathMap Resolved} (h : s.Reached n 0) :
    (s.conclude n p a es kept m).Reached n 3 := by
  unfold conclude
  split
  · exact reached_succeed h
  · split
    · exact reached_fail h
    · exact reached_succeed h

theorem reached_gather (h : s.Reached n 0) : (s.gather n p a es kept).Reached n 2 := by
  unfold gather
  split
  · exact (reached_conclude h).mono (Nat.le_succ 2)
  · exact reached_progress h

theorem reached_loaded {result : Except Fault Bytes} (h : s.Reached n 0) :
    (s.loaded n p result).Reached n 2 := by
  have hfail : ∀ {f}, (s.fail n p f).Reached n 2 := (reached_fail h).mono (Nat.le_succ 2)
  unfold loaded
  split
  · exact hfail
  · split
    · exact hfail
    · split
      · exact hfail
      · dsimp only
        split
        · refine Reached.mono ?_ (Nat.le_succ 2)
          exact reached_fail h
        · exact reached_gather h

theorem reached_load (h : s.Reached n 0) : (s.load n p).Reached n 1 := by
  unfold load
  split
  · exact (reached_fail h).mono (Nat.le_of_ble_eq_true rfl)
  · dsimp only
    split
    · refine Reached.mono ?_ (Nat.le_succ 1)
      exact reached_loaded h
    · exact reached_progress h

theorem reached_start (h : s.Reached n 0) : (s.start n p).Reached n 1 := by
  unfold start
  dsimp only
  split
  · split
    · refine Reached.mono ?_ (Nat.le_succ 1)
      exact reached_gather h
    · exact reached_load h
  · exact reached_load h

/-- A flight that can go on does. -/
theorem runFlight_ne (hc : s.flights.call? n = some c) (hready : s.flightReady c = true) :
    (s.runFlight n).flights ≠ s.flights := by
  -- a flight that is ready comes further, whatever the branch
  suffices hreached : (s.runFlight n).Reached n (rank c.status + 1) by
    intro heq
    obtain ⟨c', hc', hfar⟩ := hreached
    rw [heq, hc] at hc'; cases hc'
    exact absurd hfar (Nat.not_succ_le_self _)
  have h : s.Reached n 0 := ⟨c, hc, Nat.zero_le _⟩
  have habandon : (s.abandon n c.key).Reached n 3 := reached_finish h
  unfold flightReady at hready
  unfold runFlight
  rw [hc]
  dsimp only
  cases hst : c.status with
  | finished o => rw [hst] at hready; cases hready
  | running w => cases w with
    | launched =>
        dsimp only
        split
        · exact (reached_finish h).mono (Nat.le_of_ble_eq_true rfl)
        · exact reached_start h
    | loading fetched =>
        rw [hst] at hready
        dsimp only at hready ⊢
        split
        · exact habandon.mono (Nat.le_succ 2)
        · next hgo =>
            rw [if_pos (by simpa [hgo] using hready)]
            exact reached_loaded h
    | gathering a es kept children =>
        rw [hst] at hready
        dsimp only at hready ⊢
        rw [hready, if_neg (by simp)]
        split
        · exact habandon
        · split
          · exact habandon
          · exact reached_fail h
          · exact reached_conclude h

/-! ### Less and less work -/

/-- A state in which so much is left to do. -/
def Graded (μ : Multiset Nat) (s : Resolver) : Prop :=
  Coherent s ∧ Unhurried s ∧ ∃ ℓ k, Levelled ℓ k s ∧ s.work ℓ k = μ

/-- Less work comes of more when some of it is done, and other work for lower levels takes its place. -/
def Less : Multiset Nat → Multiset Nat → Prop := TransGen (CutExpand (· < ·))

theorem wellFounded_less : WellFounded Less := Nat.lt_wfRel.wf.cutExpand.transGen

/-- No more is left to do than before, and less if anybody has gone on. -/
def Eases (s u : Resolver) : Prop :=
  ∀ μ, Graded μ s → ∃ μ', Graded μ' u ∧
    (Less μ' μ ∨ μ' = μ ∧ u.flights = s.flights ∧ u.requests = s.requests)

theorem Eases.refl (s : Resolver) : Eases s s := fun μ h => ⟨μ, h, .inr ⟨rfl, rfl, rfl⟩⟩

theorem Eases.trans (h : Eases s t) (h' : Eases t u) : Eases s u := by
  intro μ hs
  obtain ⟨μ', ht, hless | ⟨rfl, hf, hr⟩⟩ := h μ hs
  · obtain ⟨μ'', hu, hless' | ⟨rfl, -, -⟩⟩ := h' μ' ht
    · exact ⟨μ'', hu, .inl (hless'.trans hless)⟩
    · exact ⟨_, hu, .inl hless⟩
  · obtain ⟨μ'', hu, hless' | ⟨rfl, hf', hr'⟩⟩ := h' _ ht
    · exact ⟨μ'', hu, .inl hless'⟩
    · exact ⟨_, hu, .inr ⟨rfl, hf'.trans hf, hr'.trans hr⟩⟩

theorem eases_of_steps {R : Resolver → Resolver → Prop} (hR : ∀ s u, R s u → Eases s u)
    (h : ReflTransGen R s u) : Eases s u := by
  induction h with
  | refl => exact .refl s
  | tail _ hm ih => exact ih.trans (hR _ _ hm)

theorem eases_of_lapse (hl : Lapse s u) : Eases s u := by
  rintro μ ⟨hs, hun, ℓ, k, h, rfl⟩
  obtain ⟨-, -, hflights, hrequests⟩ := hl.frame
  obtain ⟨hu, hwork⟩ := h.lapse hl
  exact ⟨_, ⟨hs.lapse hl, hun.shift (.lapse hl), ℓ, k, hu, hwork⟩, .inr ⟨rfl, hflights, hrequests⟩⟩

theorem eases_of_calm (hm : Calm s u) : Eases s u := by
  cases hm with
  | quiet hq => exact eases_of_lapse (.quiet hq)
  | request hr hm =>
      rintro μ ⟨hs, hun, ℓ, k, h, rfl⟩
      obtain ⟨k', hu, hless⟩ := h.request hun hr hm
      exact ⟨_, ⟨hs.shift (.request hr hm), hun.shift (.request hr hm), ℓ, k', hu, rfl⟩,
        .inl (.single hless)⟩

theorem eases_of_flightStep (hm : FlightStep n s u) : Eases s u := by
  rcases hm with hq | ⟨c, hc, hm⟩
  · exact eases_of_lapse (.quiet hq)
  · rintro μ ⟨hs, hun, ℓ, k, h, rfl⟩
    obtain ⟨ℓ', hu, hless⟩ := h.flight hs hun hc hm
    have hmove : Move s u := .inr ⟨n, .inr ⟨c, hc, hm⟩⟩
    exact ⟨_, ⟨hs.move hmove, hun.move hmove, ℓ', k, hu, rfl⟩, .inl (.single hless)⟩

/-- A flight in whose place the table still has it leaves its slot. -/
theorem eases_of_forget (hn : n ∈ s.flights.lingering) :
    ∀ μ, Graded μ s → ∃ μ', Graded μ' (s.step (.forget n)) ∧ Less μ' μ := by
  rintro μ ⟨hs, hun, ℓ, k, h, rfl⟩
  obtain ⟨hmem, hdone⟩ := List.mem_filter.1 hn
  obtain ⟨⟨p, m⟩, hslot, rfl⟩ := List.mem_map.1 hmem
  have hslot' : s.flights.slots.get? p = some m := PathMap.get?_eq_some_iff.2 hslot
  obtain ⟨c, hc, rfl, -⟩ := hs.wired.slot p m hslot'
  have hended : c.isRunning = false := by simpa [hc] using hdone
  obtain ⟨hu, hless⟩ := h.forget hc hended hslot'
  have hmove : Shift s (s.step (.forget m)) := .forget hc hended
  exact ⟨_, ⟨hs.shift hmove, hun.shift hmove, ℓ, k, hu, rfl⟩, .single hless⟩

/-- Whatever goes on leaves less to do. -/
theorem Graded.follows {μ : Multiset Nat} (h : Graded μ s) (ht : Follows t s) :
    ∃ μ', Graded μ' t ∧ Less μ' μ := by
  obtain ⟨x, hx, rfl⟩ := ht
  cases x with
  | forget n => exact eases_of_forget (forget_mem_ready.1 hx) μ h
  | request i =>
      obtain ⟨u, hl, -, hcalm⟩ := calm_runRequest s i
      obtain ⟨μ', hμ', hless | ⟨-, -, hr⟩⟩ := ((eases_of_steps (fun _ _ => eases_of_lapse) hl).trans
        (eases_of_steps (fun _ _ => eases_of_calm) hcalm)) μ h
      · exact ⟨μ', hμ', hless⟩
      · obtain ⟨r, hr', hready⟩ := request_mem_ready.1 hx
        exact absurd hr (runRequest_ne hr' hready)
  | flight n =>
      obtain ⟨μ', hμ', hless | ⟨-, hf, -⟩⟩ :=
        eases_of_steps (fun _ _ => eases_of_flightStep) (flightSteps_runFlight s n) μ h
      · exact ⟨μ', hμ', hless⟩
      · obtain ⟨c, hc, hready⟩ := flight_mem_ready.1 hx
        exact absurd hf (runFlight_ne hc hready)

theorem Graded.ends {μ : Multiset Nat} (h : Graded μ s) : s.Ends := by
  induction μ using wellFounded_less.induction generalizing s with
  | _ μ ih =>
      refine .intro s fun t ht => ?_
      obtain ⟨μ', ht', hless⟩ := h.follows ht
      exact ih μ' hless ht'

/-- From each state of a run of patient callers everything comes to an end. -/
theorem Run.ends (h : Run ok s t) (hok : ∀ a, ok a → a.Patient) (hs : Coherent s)
    (hun : Unhurried s) {ℓ k : Nat → Nat} (hlev : Levelled ℓ k s) : t.Ends := by
  obtain ⟨hun', ℓ', k', hlev'⟩ := h.induction hok (P := fun s => Unhurried s ∧ ∃ ℓ k, Levelled ℓ k s)
    ⟨hun, ℓ, k, hlev⟩ fun _ _ ⟨hun, _, _, hlev⟩ hm => ⟨hun.move hm, hlev.move hun hm⟩
  exact Graded.ends ⟨h.coherent hs, hun', ℓ', k', hlev', rfl⟩

/-- Where everything comes to an end, at some time nothing can go on. -/
theorem Ends.exists_settled (h : s.Ends) : ∃ t, ReflTransGen (fun s t => Follows t s) s t ∧ t.Settled := by
  induction h with
  | intro s _ ih =>
      by_cases hset : s.Settled
      · exact ⟨s, .refl, hset⟩
      · obtain ⟨x, hx⟩ := List.exists_mem_of_ne_nil _ hset
        obtain ⟨t, hst, ht⟩ := ih (s.step x) ⟨x, hx, rfl⟩
        exact ⟨t, .head ⟨x, hx, rfl⟩ hst, ht⟩

end HashedAssets.Resolver
