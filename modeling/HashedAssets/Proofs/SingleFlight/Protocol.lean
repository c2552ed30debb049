import HashedAssets.Proofs.SingleFlight.Changes

/-!
# What callers that share work can rely on

* `Joined`, `Left`: which callers have joined a call, and which gave it up while it was under way;
* `Noted`: what callers have got from their calls, and why calls were asked to stop;
* `removed_of_slot`: how a slot is emptied;
* `Protocol`, `protocol_of_possible`: what holds after every history.
-/

namespace HashedAssets.SingleFlight.Callers

universe u

variable {ρ : Type u} {s t : Callers ρ} {i : Nat} {n : CallId} {p : Participant ρ}
  {c c' : Call (Work ρ) ρ}

/-! ### Joining and giving up -/

/-- Whether a caller waits for a call that is under way, and then has given up. -/
def Leaves (s t : Callers ρ) (i : Nat) (n : CallId) : Prop :=
  s.caller? i = some (.waiting n) ∧ (∃ c, s.table.call? n = some c ∧ c.isRunning = true) ∧
    t.caller? i = some (.done .cancelled)

/-- Whether a caller has waited for a call at some time. -/
def Joined : List (Event ρ) → Nat → CallId → Prop
  | [], _, _ => False
  | e :: past, i, n => (after (e :: past)).caller? i = some (.waiting n) ∨ Joined past i n

/-- Whether a caller has given up on a call that was under way then. -/
def Left : List (Event ρ) → Nat → CallId → Prop
  | [], _, _ => False
  | e :: past, i, n => Leaves (after past) (after (e :: past)) i n ∨ Left past i n

/-! ### What callers get -/

/-- What callers have got from the calls that they joined, `J`, and which of them gave up on calls under
way, `L`. -/
structure Noted (s : Callers ρ) (J L : Nat → CallId → Prop) : Prop where
  /-- A caller that joined a call for its key waits for it, was cancelled, or has got its result. -/
  joined : ∀ {i : Nat} {n : CallId}, J i n → ∃ p c, s.participants[i]? = some p ∧
    s.table.call? n = some c ∧ c.key = p.key ∧
      (p.caller = .waiting n ∨ (p.caller = .done .cancelled ∧ p.cancelled = true) ∨
        ∃ r, p.caller = .done (.result r) ∧ p.cancelled = false ∧ c.status = .finished (.result r))
  once : ∀ {i : Nat} {m n : CallId}, J i m → J i n → m = n
  waited : ∀ {i : Nat} {n : CallId}, s.caller? i = some (.waiting n) → J i n
  ended : ∀ {i : Nat} {p : Participant ρ}, s.participants[i]? = some p → p.caller.isDone = true →
    p.cancelled = true ∨ ∃ n, J i n
  left : ∀ {i : Nat} {n : CallId}, L i n → J i n ∧ s.caller? i = some (.done .cancelled)
  /-- Callers of a call under way, or asked to stop, wait for it unless they gave up. -/
  stayed : ∀ {i : Nat} {n : CallId} {c : Call (Work ρ) ρ}, s.table.call? n = some c →
    c.isRunning = true ∨ c.cancelled = true → J i n → s.caller? i = some (.waiting n) ∨ L i n
  /-- Some caller of a call that was not asked to stop did not give up. -/
  remains : ∀ {n : CallId} {c : Call (Work ρ) ρ}, s.table.call? n = some c → c.cancelled = false →
    ∃ i, J i n ∧ ¬L i n
  begun : ∀ {n : CallId} {c : Call (Work ρ) ρ}, s.table.call? n = some c → ∃ i, J i n
  outcome : ∀ {n : CallId} {c : Call (Work ρ) ρ} {o : Outcome ρ}, s.table.call? n = some c →
    c.status = .finished o → (o = .cancelled ↔ c.cancelled = true)

variable {J L : Nat → CallId → Prop}

theorem Noted.empty : Noted (∅ : Callers ρ) (fun _ _ => False) fun _ _ => False where
  joined h := h.elim
  once h := h.elim
  waited h := by cases h
  ended h := by cases h
  left h := h.elim
  stayed h := by cases h
  remains h := by cases h
  begun h := by cases h
  outcome h := by cases h

theorem caller?_of_part (hp : s.participants[i]? = some p) : s.caller? i = some p.caller := by
  rw [caller?, hp]; rfl

/-- When work ends no caller goes on. -/
theorem Change.participants_of_ends (h : Change s t) (hc : s.table.call? n = some c)
    (hr : c.isRunning = true) (hc' : t.table.call? n = some c') (hfin : c'.isRunning = false) :
    t.participants = s.participants := by
  have hstays : ∀ {d : Call (Work ρ) ρ}, t.table.call? n = some d → d.status = c.status → False :=
    fun {d} hd hst => by
      obtain rfl : c' = d := Option.some.inj (hc'.symm.trans hd)
      rw [isRunning_congr hst, hr] at hfin
      cases hfin
  -- only work ends a call, and it leaves the participants alone; all else keeps how far the call is
  have hmodify : ∀ {m : CallId} {f : Call (Work ρ) ρ → Call (Work ρ) ρ}, (∀ c, (f c).status = c.status) →
      ∃ d, (s.table.modify m f).call? n = some d ∧ d.status = c.status := fun {m f} hf => by
    rw [Table.call?_modify, hc]
    split
    · exact ⟨f c, rfl, hf c⟩
    · exact ⟨c, rfl, rfl⟩
  cases h with
  | join _ _ _ _ =>
      obtain ⟨d, hd, hst⟩ := hmodify (f := fun c => { c with waiters := c.waiters + 1 }) fun _ => rfl
      exact (hstays hd hst).elim
  | launch _ _ _ _ =>
      refine (hstays (d := c) ?_ rfl).elim
      rw [table_setBoth, Table.call?_append, if_neg (Nat.ne_of_lt (Table.lt_of_call?_eq_some hc))]
      exact hc
  | quit _ _ _ => exact (hstays hc rfl).elim
  | mark _ _ => exact (hstays hc rfl).elim
  | come _ _ => exact (hstays hc rfl).elim
  | @take i p m o _ _ _ =>
      have hd : ∃ d, (s.table.detach m).call? n = some d ∧ d.status = c.status := by
        rw [Table.call?_detach_eq, hc]
        split
        · exact ⟨c.deserted, rfl, rfl⟩
        · exact ⟨c, rfl, rfl⟩
      obtain ⟨d, hd, hst⟩ := hd
      exact (hstays hd hst).elim
  | idle => rfl
  | forget _ _ => rfl
  | work _ _ _ _ => rfl

/-- A caller that waits after something has happened has waited, or has just asked. -/
theorem Change.waiting (h : Change s t) (hs : Seated s) (hi : t.caller? i = some (.waiting n)) :
    s.caller? i = some (.waiting n) ∨ s.caller? i = some .fresh := by
  obtain ⟨p, hp, hw⟩ := Option.map_eq_some_iff.1 hi
  have hturn := h.turn hs i
  rw [hp] at hturn
  generalize hx : s.participants[i]? = x at hturn
  cases hturn with
  | stay => exact .inl ((caller?_of_part hx).trans (congrArg some hw))
  | come hfresh => rw [hfresh] at hw; cases hw
  | @mark q _ => exact .inl ((caller?_of_part hx).trans (congrArg some hw))
  | quit _ _ => cases hw
  | @join q m c hfresh _ _ _ => exact .inr ((caller?_of_part hx).trans (congrArg some hfresh))
  | take _ _ => cases hw

/-- A caller that has its outcome keeps it. -/
theorem Change.done (h : Change s t) (hs : Seated s) {o : Outcome ρ} (hi : s.caller? i = some (.done o)) :
    t.caller? i = some (.done o) := by
  obtain ⟨p, hp, hd⟩ := Option.map_eq_some_iff.1 hi
  have hturn := h.turn hs i
  rw [hp] at hturn
  generalize hx : t.participants[i]? = x at hturn
  cases hturn with
  | stay => exact (caller?_of_part hx).trans (congrArg some hd)
  | mark hundone => rw [hd] at hundone; cases hundone
  | quit hfresh _ => rw [hfresh] at hd; cases hd
  | join hfresh _ _ _ => rw [hfresh] at hd; cases hd
  | take hw _ => rw [hw] at hd; cases hd

/-- What a waiting caller takes: that it was cancelled, or else the result of its call. -/
theorem Noted.answer (h : Noted s J L) (hs : Seated s) (hp : s.participants[i]? = some p)
    (hw : p.caller = .waiting n) (hc : s.table.call? n = some c) {o : Outcome ρ}
    (ho : s.table.answer? p.cancelled n = some o) :
    (p.cancelled = true ∧ o = .cancelled) ∨
      ∃ r, p.cancelled = false ∧ o = .result r ∧ c.status = .finished (.result r) := by
  unfold Table.answer? at ho
  split at ho
  · next hcan => cases ho; exact .inl ⟨hcan, rfl⟩
  · next hcan =>
      have hst : c.status = .finished o := by
        rw [hc] at ho
        simp only [Option.bind_some, Call.outcome?] at ho
        split at ho
        · cases ho
        · next hst => cases ho; exact hst
      have hgo := hs.uncancelled ((caller?_of_part hp).trans (congrArg some hw)) hc
      cases o with
      | result r => exact .inr ⟨r, Bool.eq_false_iff.2 hcan, rfl, hst⟩
      | cancelled =>
          have := (h.outcome hc hst).1 rfl
          rw [hgo] at this
          cases this

theorem Noted.change_outcome (hn : Noted s J L) (h : Change s t) {o : Outcome ρ}
    (hc : t.table.call? n = some c) (hst : c.status = .finished o) :
    o = .cancelled ↔ c.cancelled = true := by
  have hturn := h.callTurn n
  rw [hc] at hturn
  generalize hx : s.table.call? n = x at hturn
  cases hturn with
  | stay => exact hn.outcome hx hst
  | begin hrun _ => exact absurd hst (not_finished_of_isRunning hrun o)
  | join d =>
      have hd : d.status = .finished o := hst
      have hiff := hn.outcome hx hd
      exact hiff
  | leave d =>
      have hd : d.status = .finished o := hst
      have hfin : d.isRunning = false := isRunning_eq_false_of_status hd
      simpa [Call.deserted, hfin] using hn.outcome hx hd
  | work _ ho => exact ho o hst

theorem Noted.change_joined (hn : Noted s J L) (hs : Seated s) (h : Change s t)
    (hj : t.caller? i = some (.waiting n) ∨ J i n) :
    ∃ p c, t.participants[i]? = some p ∧ t.table.call? n = some c ∧ c.key = p.key ∧
      (p.caller = .waiting n ∨ (p.caller = .done .cancelled ∧ p.cancelled = true) ∨
        ∃ r, p.caller = .done (.result r) ∧ p.cancelled = false ∧ c.status = .finished (.result r)) := by
  rcases hj with hw | hj
  · obtain ⟨p, hp, hw⟩ := Option.map_eq_some_iff.1 hw
    obtain ⟨c, hc, hk⟩ := (hs.change h).waiting hp hw
    exact ⟨p, c, hp, hc, hk, .inl hw⟩
  · obtain ⟨p, c, hp, hc, hk, hcase⟩ := hn.joined hj
    obtain ⟨c', hc', hk', hst, -⟩ := h.call? hc
    have hkeep : ∀ r, c.status = .finished (.result r) → c'.status = .finished (.result r) :=
      fun r hr => (hst (isRunning_eq_false_of_status hr)).trans hr
    have hturn := h.turn hs i
    rw [hp] at hturn
    generalize hx : t.participants[i]? = x at hturn
    cases hturn with
    | stay =>
        refine ⟨p, c', rfl, hc', hk'.trans hk, hcase.imp_right (Or.imp_right ?_)⟩
        rintro ⟨r, hd, hgo, hr⟩
        exact ⟨r, hd, hgo, hkeep r hr⟩
    | mark hundone =>
        refine ⟨_, c', rfl, hc', hk'.trans hk, .inl ?_⟩
        rcases hcase with hw | ⟨hd, -⟩ | ⟨r, hd, -⟩
        · exact hw
        · rw [hd] at hundone; cases hundone
        · rw [hd] at hundone; cases hundone
    | quit hfresh _ =>
        rw [hfresh] at hcase
        rcases hcase with hw | ⟨hd, -⟩ | ⟨r, hd, -⟩ <;> contradiction
    | join hfresh _ _ _ =>
        rw [hfresh] at hcase
        rcases hcase with hw | ⟨hd, -⟩ | ⟨r, hd, -⟩ <;> contradiction
    | @take _ m o hw ho =>
        have hm : m = n := by
          rw [hw] at hcase
          rcases hcase with hw | ⟨hd, -⟩ | ⟨r, hd, -⟩
          · cases hw; rfl
          · cases hd
          · cases hd
        subst hm
        refine ⟨_, c', rfl, hc', hk'.trans hk, .inr ?_⟩
        rcases hn.answer hs hp hw hc ho with ⟨hcan, rfl⟩ | ⟨r, hgo, rfl, hr⟩
        · exact .inl ⟨rfl, hcan⟩
        · exact .inr ⟨r, rfl, hgo, hkeep r hr⟩

/-- A call is new, or it was under way or asked to stop already if it is now. -/
theorem Change.exists_call? (h : Change s t) (hc' : t.table.call? n = some c') :
    (s.table.call? n = none ∧ c'.isRunning = true ∧ c'.cancelled = false) ∨
    ∃ c, s.table.call? n = some c ∧ (c'.isRunning = true → c.isRunning = true) ∧
      (c'.cancelled = true → c.cancelled = true ∨ c.isRunning = true) := by
  have hturn := h.callTurn n
  rw [hc'] at hturn
  generalize s.table.call? n = x at hturn
  cases hturn with
  | stay => exact .inr ⟨c', rfl, id, .inl⟩
  | begin hrun hgo => exact .inl ⟨rfl, hrun, hgo⟩
  | join c => exact .inr ⟨c, rfl, id, .inl⟩
  | leave c =>
      refine .inr ⟨c, rfl, id, fun hcan => ?_⟩
      exact (Bool.or_eq_true_iff.1 hcan).imp_right fun hlast => (Bool.and_eq_true_iff.1 hlast).2
  | @work c st hrun _ => exact .inr ⟨c, rfl, fun _ => hrun, .inl⟩

/-- A caller of a call under way goes on waiting, or gives up. -/
theorem Noted.change_waiting (hn : Noted s J L) (hs : Seated s) (h : Change s t)
    (hc : s.table.call? n = some c) (hi : s.caller? i = some (.waiting n)) (hr : c.isRunning = true) :
    t.caller? i = some (.waiting n) ∨ Leaves s t i n := by
  obtain ⟨p, hp, hw⟩ := Option.map_eq_some_iff.1 hi
  have hturn := h.turn hs i
  rw [hp] at hturn
  generalize hx : t.participants[i]? = x at hturn
  cases hturn with
  | stay => exact .inl ((caller?_of_part hx).trans (congrArg some hw))
  | mark _ => exact .inl ((caller?_of_part hx).trans (congrArg some hw))
  | quit hfresh _ => rw [hfresh] at hw; cases hw
  | join hfresh _ _ _ => rw [hfresh] at hw; cases hw
  | @take _ m o hw' ho =>
      obtain rfl : m = n := by rw [hw'] at hw; cases hw; rfl
      rcases hn.answer hs hp hw' hc ho with ⟨-, rfl⟩ | ⟨r, -, -, hfin⟩
      · exact .inr ⟨hi, ⟨c, hc, hr⟩, caller?_of_part hx⟩
      · exact absurd hfin (not_finished_of_isRunning hr _)

/-- A caller that has joined a call does not begin anew. -/
theorem Noted.eq_of_waiting (hn : Noted s J L) (hs : Seated s) (h : Change s t) {m : CallId}
    (hw : t.caller? i = some (.waiting m)) (hj : J i n) : m = n := by
  rcases h.waiting hs hw with hw | hfresh
  · exact hn.once (hn.waited hw) hj
  · obtain ⟨p, c, hp, -, -, hcase⟩ := hn.joined hj
    obtain hp' : p.caller = .fresh := Option.some.inj ((caller?_of_part hp).symm.trans hfresh)
    rw [hp'] at hcase
    rcases hcase with hw | ⟨hd, -⟩ | ⟨r, hd, -⟩ <;> contradiction

theorem Noted.change_ended (hn : Noted s J L) (hs : Seated s) (h : Change s t)
    (hp : t.participants[i]? = some p) (hd : p.caller.isDone = true) :
    p.cancelled = true ∨ ∃ n, J i n := by
  have hturn := h.turn hs i
  rw [hp] at hturn
  generalize hx : s.participants[i]? = x at hturn
  cases hturn with
  | stay => exact hn.ended hx hd
  | come hfresh => rw [hfresh] at hd; cases hd
  | mark _ => exact .inl rfl
  | quit _ hcan => exact .inl hcan
  | join _ _ _ _ => cases hd
  | @take q m o hw _ => exact .inr ⟨m, hn.waited ((caller?_of_part hx).trans (congrArg some hw))⟩

theorem Noted.change_stayed (hn : Noted s J L) (hs : Seated s) (h : Change s t)
    (hc' : t.table.call? n = some c') (hcase : c'.isRunning = true ∨ c'.cancelled = true) (hj : J i n) :
    t.caller? i = some (.waiting n) ∨ Leaves s t i n ∨ L i n := by
  obtain ⟨-, c, -, hc, -⟩ := hn.joined hj
  have hcase' : c.isRunning = true ∨ c.cancelled = true := by
    rcases h.exists_call? hc' with ⟨hnone, -⟩ | ⟨d, hd, hrun, hcan⟩
    · rw [hnone] at hc; cases hc
    · obtain rfl : c = d := Option.some.inj (hc.symm.trans hd)
      exact hcase.elim (fun hr => .inl (hrun hr)) fun h => (hcan h).symm
  rcases hn.stayed hc hcase' hj with hw | hl
  · have hgo := hs.uncancelled hw hc
    have hr : c.isRunning = true := hcase'.resolve_right (by simp [hgo])
    exact (hn.change_waiting hs h hc hw hr).imp_right .inl
  · exact .inr (.inr hl)

/-- While a call is under way some caller waits for it; and when it ends nobody gives up. -/
theorem Noted.change_remains (hn : Noted s J L) (hs : Seated s) (h : Change s t)
    (hc' : t.table.call? n = some c') (hgo : c'.cancelled = false) :
    ∃ i, (t.caller? i = some (.waiting n) ∨ J i n) ∧ ¬(Leaves s t i n ∨ L i n) := by
  -- work under way has somebody who waits for it; a call that has ended keeps whoever it had
  cases hr' : c'.isRunning with
  | true =>
      obtain ⟨i, hi⟩ := (hs.change h).exists_waiting hc' hr' hgo
      refine ⟨i, .inl hi, ?_⟩
      rintro (⟨-, -, hd⟩ | hl)
      · rw [hi] at hd; cases hd
      · have hd := h.done hs (hn.left hl).2
        rw [hi] at hd
        cases hd
  | false =>
      rcases h.exists_call? hc' with ⟨-, hr, -⟩ | ⟨c, hc, -⟩
      · exact absurd (hr.symm.trans hr') (by decide)
      obtain ⟨d, hd, -, -, hcan⟩ := h.call? hc
      obtain rfl : d = c' := Option.some.inj (hd.symm.trans hc')
      have hgo' : c.cancelled = false := by
        by_contra hne
        have hcan' := hcan (Bool.of_not_eq_false hne)
        rw [hgo] at hcan'
        cases hcan'
      obtain ⟨i, hj, hl⟩ := hn.remains hc hgo'
      refine ⟨i, .inr hj, ?_⟩
      rintro (⟨hw, ⟨d, hd, hr⟩, hdone⟩ | hl')
      · obtain rfl : c = d := Option.some.inj (hc.symm.trans hd)
        rw [caller?, h.participants_of_ends hc hr hc' hr'] at hdone
        rw [caller?] at hw
        rw [hw] at hdone
        cases hdone
      · exact hl hl'

/-- What an event adds to who has joined which call and who has given up. -/
theorem Noted.change (hn : Noted s J L) (hs : Seated s) (h : Change s t) :
    Noted t (fun i n => t.caller? i = some (.waiting n) ∨ J i n) fun i n => Leaves s t i n ∨ L i n where
  joined := hn.change_joined hs h
  once {i m n} hm hn' := by
    rcases hm with hm | hm <;> rcases hn' with hn' | hn'
    · rw [hm] at hn'; cases hn'; rfl
    · exact hn.eq_of_waiting hs h hm hn'
    · exact (hn.eq_of_waiting hs h hn' hm).symm
    · exact hn.once hm hn'
  waited := .inl
  ended hp hd := (hn.change_ended hs h hp hd).imp_right fun ⟨n, hj⟩ => ⟨n, .inr hj⟩
  left {i n} hl := by
    rcases hl with ⟨hw, -, hd⟩ | hl
    · exact ⟨.inr (hn.waited hw), hd⟩
    · obtain ⟨hj, hd⟩ := hn.left hl
      exact ⟨.inr hj, h.done hs hd⟩
  stayed hc' hcase hj := hj.elim .inl (hn.change_stayed hs h hc' hcase)
  remains := hn.change_remains hs h
  begun {n c'} hc' := by
    rcases h.exists_call? hc' with ⟨-, hr, hgo⟩ | ⟨c, hc, -⟩
    · obtain ⟨i, hi⟩ := (hs.change h).exists_waiting hc' hr hgo
      exact ⟨i, .inl hi⟩
    · obtain ⟨i, hj⟩ := hn.begun hc
      exact ⟨i, .inr hj⟩
  outcome := hn.change_outcome h

/-! ### Whole histories -/

theorem noted_after : ∀ {past : List (Event ρ)}, Possible past →
    Noted (after past) (Joined past) (Left past)
  | [], _ => .empty
  | _ :: _, h => (noted_after h.1).change (seated_after h.1) (change_act h.2)

/-- A waiting caller that was not cancelled goes on when its call has ended, and gets its result. -/
theorem outcome?_step_caller {r : ρ} (hp : s.participants[i]? = some p) (hw : p.caller = .waiting n)
    (hgo : p.cancelled = false) (hc : s.table.call? n = some c)
    (hst : c.status = .finished (.result r)) :
    Step.caller i ∈ s.ready ∧ (s.step (.caller i)).outcome? i = some (.result r) := by
  have ho : s.table.answer? p.cancelled n = some (.result r) := by
    simp [Table.answer?, hgo, hc, Call.outcome?, hst]
  constructor
  · have hready : s.callerReady p = true := by simp [callerReady, hw, ho]
    simp only [ready, List.mem_append, List.mem_map, List.mem_filter, List.mem_zipIdx_iff_getElem?]
    exact .inl (.inr ⟨(p, i), ⟨hp, hready⟩, rfl⟩)
  · have hstep : s.step (.caller i) = s.setBoth (s.table.detach n) i (.done (.result r)) := by
      simp only [step, runCaller, hp, hw, ho, setBoth]
    rw [hstep, outcome?, participants_setBoth, getElem?_modify_caller hp, if_pos rfl]
    rfl

/-- Only when calls are forgotten, and when callers go on, do calls leave their slots. -/
theorem slots_act {e : Event ρ} (hforget : ∀ n, e ≠ .step (.forget n))
    (hcaller : ∀ i, e ≠ .step (.caller i)) : (s.act e).table.slots = s.table.slots := by
  cases e with
  | ask key instant => rfl
  | cancel i =>
      show (s.cancel i).2.table.slots = _
      unfold cancel
      split
      · split <;> rfl
      · rfl
  | answer key r =>
      show (s.answer key r).2.table.slots = _
      unfold answer
      repeat' split
      all_goals rfl
  | step x =>
      cases x with
      | forget n => exact absurd rfl (hforget n)
      | caller i => exact absurd rfl (hcaller i)
      | work n =>
          show (s.runWork n).table.slots = _
          unfold runWork
          repeat' split
          all_goals rfl

/-- All that a caller can take from a call under way is that it was cancelled itself. -/
theorem outcome_of_isRunning {b : Bool} {o : Outcome ρ} (hc : s.table.call? n = some c)
    (hr : c.isRunning = true) (ho : s.table.answer? b n = some o) : o = .cancelled := by
  unfold Table.answer? at ho
  split at ho
  · cases ho; rfl
  · rw [hc] at ho
    obtain ⟨w, hst⟩ := isRunning_iff.1 hr
    simp [Call.outcome?, hst] at ho

/-- A caller that empties a slot takes its outcome. -/
theorem exists_take_of_removed {key : String} (hn : s.table.slots.get? key = some n)
    (hgone : (s.runCaller i).table.slots.get? key ≠ some n) :
    ∃ p m o, s.participants[i]? = some p ∧ p.caller = .waiting m ∧
      s.table.answer? p.cancelled m = some o ∧
      s.runCaller i = s.setBoth (s.table.detach m) i (.done o) := by
  unfold runCaller at hgone
  split at hgone
  · exact absurd hn hgone
  next p hp =>
  split at hgone
  · split at hgone
    · exact absurd hn hgone
    cases hslot : s.table.slots.get? p.key with
    | some m => rw [Table.attach_of_some hslot] at hgone; exact absurd hn hgone
    | none =>
        rw [Table.attach_of_none hslot] at hgone
        refine absurd ((PathMap.get?_insert _ _ _ _).trans ?_) hgone
        rw [if_neg, hn]
        rintro rfl
        rw [hslot] at hn
        cases hn
  · next m hw =>
      split at hgone
      · next o ho => exact ⟨p, m, o, hp, hw, ho, by simp only [runCaller, hp, hw, ho, setBoth]⟩
      · exact absurd hn hgone
  · exact absurd hn hgone

/-- A call that leaves its slot when a caller goes on is under way, and the caller was its last and gave
up. -/
theorem removed_of_caller (hs : Seated s) {key : String} (hn : s.table.slots.get? key = some n)
    (hgone : (s.runCaller i).table.slots.get? key ≠ some n) :
    (s.runCaller i).table.slots.get? key = none ∧ Leaves s (s.runCaller i) i n ∧ s.awaiting n = 1 ∧
      (s.runCaller i).table.isCancelled n = true := by
  obtain ⟨p, m, o, hp, hw, ho, hrun⟩ := exists_take_of_removed hn hgone
  obtain ⟨c, hc, -⟩ := hs.waiting hp hw
  have hslot := Table.slots_detach hc key
  rw [hrun, table_setBoth, hslot] at hgone
  split at hgone
  · next hlast =>
      have ⟨⟨_, hm⟩, hnobody, hr⟩ := hlast
      obtain rfl : n = m := Option.some.inj (hn.symm.trans hm)
      obtain rfl : o = .cancelled := outcome_of_isRunning hc hr ho
      have hi : s.caller? i = some (.waiting n) := (caller?_of_part hp).trans (congrArg some hw)
      have hpos : 0 < s.awaiting n := awaiting_pos_iff.2 ⟨i, hi⟩
      have hwaiters := hs.counted.waiters hc
      rw [hrun]
      refine ⟨?_, ⟨hi, ⟨c, hc, hr⟩, ?_⟩, by omega, ?_⟩
      · rw [table_setBoth, hslot, if_pos hlast]
      · rw [caller?, participants_setBoth, getElem?_modify_caller hp, if_pos rfl]; rfl
      · rw [table_setBoth, Table.isCancelled, Table.call?_detach_eq, if_pos rfl, hc]
        simp [Call.deserted, hnobody, hr]
  · exact absurd hn hgone

/-- A call that is in a slot and then is not was forgotten after it had ended, or lost the last of its
callers while it was under way. -/
theorem removed_of_slot {e : Event ρ} (hs : Seated s) (he : s.Admits e) {key : String}
    (hn : s.table.slots.get? key = some n) (hgone : (s.act e).table.slots.get? key ≠ some n) :
    (s.act e).table.slots.get? key = none ∧
      ((e = .step (.forget n) ∧ (s.table.call? n).map (·.isRunning) = some false) ∨
        ∃ i, e = .step (.caller i) ∧ Leaves s (s.act e) i n ∧ s.awaiting n = 1 ∧
          (s.act e).table.isCancelled n = true) := by
  by_cases hforget : ∃ m, e = .step (.forget m)
  · obtain ⟨m, rfl⟩ := hforget
    obtain ⟨c, hc, hfin⟩ := Option.map_eq_some_iff.1 (show _ = _ from he)
    have hslot : (s.act (.step (.forget m))).table.slots.get? key = _ := Table.slots_forget hc key
    rw [hslot] at hgone ⊢
    split at hgone
    · next hm =>
        obtain rfl : n = m := Option.some.inj (hn.symm.trans hm.2)
        rw [if_pos hm]
        exact ⟨rfl, .inl ⟨rfl, he⟩⟩
    · exact absurd hn hgone
  by_cases hcaller : ∃ i, e = .step (.caller i)
  · obtain ⟨i, rfl⟩ := hcaller
    obtain ⟨hnone, hrest⟩ := removed_of_caller hs hn hgone
    exact ⟨hnone, .inr ⟨i, rfl, hrest⟩⟩
  · rw [slots_act (fun m hm => hforget ⟨m, hm⟩) fun i hi => hcaller ⟨i, hi⟩] at hgone
    exact absurd hn hgone

/-- What callers that share work can rely on after a history. -/
structure Protocol (past : List (Event ρ)) : Prop where
  /-- A slot holds a call for its key. -/
  slot : ∀ (key : String) (n : CallId), (after past).table.slots.get? key = some n →
    ∃ c, (after past).table.call? n = some c ∧ c.key = key ∧ c.cancelled = false
  /-- Of the calls for one key at most one is under way and was not asked to stop; it is in the slot. -/
  held : ∀ (n : CallId) (c : Call (Work ρ) ρ), (after past).table.call? n = some c →
    c.isRunning = true → c.cancelled = false → (after past).table.slots.get? c.key = some n
  /-- A call has noted how many callers wait for it, and while it is under way in its slot some do. -/
  waiters : ∀ (n : CallId) (c : Call (Work ρ) ρ), (after past).table.call? n = some c →
    c.waiters = (after past).awaiting n ∧
      ((after past).table.slots.get? c.key = some n → c.isRunning = true → 0 < c.waiters)
  /-- A call was asked to stop if and only if each caller that joined it gave up while it was under way. -/
  stopped : ∀ (n : CallId) (c : Call (Work ρ) ρ), (after past).table.call? n = some c →
    (c.cancelled = true ↔ ∀ i, Joined past i n → Left past i n) ∧ (∃ i, Joined past i n) ∧
      ∀ o, c.status = .finished o → (o = .cancelled ↔ c.cancelled = true)
  /-- Only cancelled callers give up. -/
  left : ∀ (i : Nat) (n : CallId), Left past i n →
    Joined past i n ∧ ∃ p, (after past).participants[i]? = some p ∧ p.cancelled = true
  /-- A caller joins one call. -/
  once : ∀ (i : Nat) (m n : CallId), Joined past i m → Joined past i n → m = n
  /-- A caller that is not cancelled gets the result of the call for its key that it joined: it has it,
  or it waits and takes it as soon as there is one. -/
  received : ∀ (i : Nat) (p : Participant ρ), (after past).participants[i]? = some p →
    p.cancelled = false → p.caller ≠ .fresh →
    ∃ n c, Joined past i n ∧ (after past).table.call? n = some c ∧ c.key = p.key ∧ c.cancelled = false ∧
      ((∃ r, c.status = .finished (.result r) ∧ p.caller = .done (.result r)) ∨
        (p.caller = .waiting n ∧ ∀ o, c.status = .finished o → ∃ r, o = .result r ∧
          Step.caller i ∈ (after past).ready ∧
          ((after past).step (.caller i)).outcome? i = some (.result r)))
  /-- A slot is emptied when the very call in it has ended and is forgotten, or when the last caller of
  that call gives up. Another call for the key never takes the place of one that is in its slot. -/
  removed : ∀ e, (after past).Admits e → ∀ (key : String) (n : CallId),
    (after past).table.slots.get? key = some n → (after (e :: past)).table.slots.get? key ≠ some n →
    (after (e :: past)).table.slots.get? key = none ∧
      ((e = .step (.forget n) ∧ ((after past).table.call? n).map (·.isRunning) = some false) ∨
        ∃ i, e = .step (.caller i) ∧ Leaves (after past) (after (e :: past)) i n ∧
          (after past).awaiting n = 1 ∧ (after (e :: past)).table.isCancelled n = true)

theorem Noted.received (hn : Noted s J L) (hs : Seated s) (hp : s.participants[i]? = some p)
    (hgo : p.cancelled = false) (hasked : p.caller ≠ .fresh) :
    ∃ n c, J i n ∧ s.table.call? n = some c ∧ c.key = p.key ∧ c.cancelled = false ∧
      ((∃ r, c.status = .finished (.result r) ∧ p.caller = .done (.result r)) ∨
        (p.caller = .waiting n ∧ ∀ o, c.status = .finished o → ∃ r, o = .result r ∧
          Step.caller i ∈ s.ready ∧ (s.step (.caller i)).outcome? i = some (.result r))) := by
  have hj : ∃ n, J i n := by
    cases hcall : p.caller with
    | fresh => exact absurd hcall hasked
    | waiting n => exact ⟨n, hn.waited ((caller?_of_part hp).trans (congrArg some hcall))⟩
    | done o => exact (hn.ended hp (by rw [hcall]; rfl)).resolve_left (by simp [hgo])
  obtain ⟨n, hj⟩ := hj
  obtain ⟨q, c, hq, hc, hk, hcase⟩ := hn.joined hj
  obtain rfl : p = q := Option.some.inj (hp.symm.trans hq)
  refine ⟨n, c, hj, hc, hk, ?_⟩
  rcases hcase with hw | ⟨-, hcan⟩ | ⟨r, hd, -, hst⟩
  · have hgo' := hs.uncancelled ((caller?_of_part hp).trans (congrArg some hw)) hc
    refine ⟨hgo', .inr ⟨hw, fun o hst => ?_⟩⟩
    cases o with
    | cancelled => exact absurd ((hn.outcome hc hst).1 rfl) (by simp [hgo'])
    | result r => exact ⟨r, rfl, outcome?_step_caller hp hw hgo hc hst⟩
  · rw [hgo] at hcan; cases hcan
  · refine ⟨?_, .inl ⟨r, hst, hd⟩⟩
    by_contra hcan
    cases (hn.outcome hc hst).2 (Bool.of_not_eq_false hcan)

/-- **The single-flight protocol.** Whatever has happened, in whatever order: there is one call for a key
at most, callers are counted, a call is asked to stop if and only if all that joined it were cancelled
before it had ended, all others get its result, and no call empties the slot of another. -/
theorem protocol_of_possible {past : List (Event ρ)} (h : Possible past) : Protocol past := by
  have hs := seated_after h
  have hn := noted_after h
  refine ⟨fun _ _ => hs.slot, fun _ _ => hs.held, fun n c hc => ⟨hs.counted.waiters hc, ?_⟩,
    fun n c hc => ⟨⟨fun hcan i hj => ?_, fun hall => ?_⟩, hn.begun hc, fun o => hn.outcome hc⟩,
    fun i n hl => ?_, fun _ _ _ => hn.once, fun _ _ => hn.received hs,
    fun e he key n => removed_of_slot hs he⟩
  · intro hslot hr
    obtain ⟨c', hc', -, hgo⟩ := hs.slot hslot
    obtain rfl : c = c' := Option.some.inj (hc.symm.trans hc')
    exact hs.counted.attended hc hr hgo
  · refine (hn.stayed hc (.inr hcan) hj).resolve_left fun hw => ?_
    have hgo := hs.uncancelled hw hc
    rw [hcan] at hgo
    cases hgo
  · by_contra hcan
    obtain ⟨i, hj, hl⟩ := hn.remains hc (Bool.eq_false_iff.2 hcan)
    exact hl (hall i hj)
  · obtain ⟨hj, hd⟩ := hn.left hl
    obtain ⟨p, c, hp, -, -, hcase⟩ := hn.joined hj
    refine ⟨hj, p, hp, ?_⟩
    have hdone : p.caller = .done .cancelled := Option.some.inj ((caller?_of_part hp).symm.trans hd)
    rw [hdone] at hcase
    rcases hcase with hw | ⟨-, hcan⟩ | ⟨r, hr, -⟩
    · cases hw
    · exact hcan
    · cases hr

/-- Two callers of one call give up, and the call is asked to stop; a third begins another call for the
same key before the first call notices and is forgotten, and gets the result of its own call. -/
def handover : List (Event Nat) :=
  [.step (.caller 2), .step (.work 1), .step (.forget 0), .answer "k" 7, .step (.work 0), .step (.work 1),
    .step (.caller 2), .ask "k" none, .step (.caller 1), .step (.caller 0), .cancel 1, .cancel 0,
    .step (.work 0), .step (.caller 1), .step (.caller 0), .ask "k" none, .ask "k" none]

theorem protocol_handover :
    Possible handover ∧ Protocol handover ∧ (after handover).outcome? 2 = some (.result 7) ∧
      (after handover).table.isCancelled 0 = true ∧
      (after handover).table.slots.get? "k" = some 1 := by
  refine ⟨by decide +kernel, protocol_of_possible (by decide +kernel), ?_⟩
  decide +kernel

end HashedAssets.SingleFlight.Callers
