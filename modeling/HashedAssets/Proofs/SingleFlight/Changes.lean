import HashedAssets.Proofs.SingleFlight.Counted
import HashedAssets.SingleFlight.Callers

/-!
# What can happen to callers that share work

* `Event`, `act`, `Admits`: what can happen to callers and their work, in any order;
* `after`, `Possible`: histories, and the state after one;
* `Change`: all that an event can do; `CallTurn`, `Turn`: what it does to one call, and to one caller;
* `Seated`: who sits in which slot, who waits for what, and how many do; every history keeps it.
-/

namespace HashedAssets.SingleFlight.Callers

universe u

variable {ρ : Type u}

/-! ### Histories -/

/-- What can happen: what callers and the host do, and pieces of what goes on by itself. -/
inductive Event (ρ : Type u)
  | ask (key : String) (instant : Option ρ)
  | cancel (i : Nat)
  | answer (key : String) (r : ρ)
  | step (x : Step)

/-- Whether something can happen. Any call that has ended may be forgotten, in its slot or not and more
than once; a caller or work that cannot go on does nothing. -/
def Admits (s : Callers ρ) : Event ρ → Prop
  | .step (.forget n) => (s.table.call? n).map (·.isRunning) = some false
  | _ => True

instance (s : Callers ρ) : DecidablePred s.Admits
  | .step (.forget n) => inferInstanceAs (Decidable ((s.table.call? n).map (·.isRunning) = some false))
  | .step (.caller _) => isTrue trivial
  | .step (.work _) => isTrue trivial
  | .ask _ _ => isTrue trivial
  | .cancel _ => isTrue trivial
  | .answer _ _ => isTrue trivial

/-- The state after something has happened. -/
def act (s : Callers ρ) : Event ρ → Callers ρ
  | .ask key instant => (s.ask key instant).2
  | .cancel i => (s.cancel i).2
  | .answer key r => (s.answer key r).2
  | .step x => s.step x

/-- The state after a history, whose last event comes first. -/
def after : List (Event ρ) → Callers ρ
  | [] => ∅
  | e :: past => (after past).act e

/-- Whether the events of a history can happen one after the other. -/
def Possible : List (Event ρ) → Prop
  | [] => True
  | e :: past => Possible past ∧ (after past).Admits e

instance decidablePossible : (es : List (Event ρ)) → Decidable (Possible es)
  | [] => isTrue trivial
  | e :: past =>
      have := decidablePossible past
      inferInstanceAs (Decidable (Possible past ∧ (after past).Admits e))

/-- What a caller is doing. -/
def caller? (s : Callers ρ) (i : Nat) : Option (Caller ρ) := (s.participants[i]?).map (·.caller)

/-- How many callers wait for a call. -/
def awaiting (s : Callers ρ) (n : CallId) : Nat := s.participants.countP (·.caller.awaits n)

/-! ### What events do -/

variable {s t : Callers ρ} {i : Nat} {n : CallId} {p : Participant ρ} {c : Call (Work ρ) ρ}

/-- The state in which a call has another status. -/
def setStatus (s : Callers ρ) (n : CallId) (st : Status (Work ρ) ρ) (log : List Line) : Callers ρ :=
  { s with table := s.table.modify n fun c => { c with status := st }, log }

/-- The state in which a caller does something else, and the table may have changed with it. -/
def setBoth (s : Callers ρ) (table : Table (Work ρ) ρ) (i : Nat) (c : Caller ρ) : Callers ρ :=
  { s with table }.setCaller i c

@[simp] theorem table_setStatus (s : Callers ρ) (n : CallId) (st : Status (Work ρ) ρ) (log : List Line) :
    (s.setStatus n st log).table = s.table.modify n fun c => { c with status := st } := rfl

@[simp] theorem participants_setStatus (s : Callers ρ) (n : CallId) (st : Status (Work ρ) ρ)
    (log : List Line) : (s.setStatus n st log).participants = s.participants := rfl

@[simp] theorem table_setBoth (s : Callers ρ) (table : Table (Work ρ) ρ) (i : Nat) (c : Caller ρ) :
    (s.setBoth table i c).table = table := rfl

@[simp] theorem participants_setBoth (s : Callers ρ) (table : Table (Work ρ) ρ) (i : Nat) (c : Caller ρ) :
    (s.setBoth table i c).participants = s.participants.modify i fun p => { p with caller := c } := rfl

/-- All that an event can do. -/
inductive Change (s : Callers ρ) : Callers ρ → Prop
  | idle : Change s s
  | come (key : String) (instant : Option ρ) :
      Change s { s with participants := s.participants ++ [⟨key, instant, .fresh, false⟩] }
  | mark {i : Nat} {p : Participant ρ} (part : s.participants[i]? = some p)
      (undone : p.caller.isDone = false) :
      Change s { s with participants := s.participants.modify i fun p => { p with cancelled := true } }
  | forget {n : CallId} {c : Call (Work ρ) ρ} (call : s.table.call? n = some c)
      (finished : c.isRunning = false) : Change s { s with table := s.table.forget n }
  | work {n : CallId} {c : Call (Work ρ) ρ} {st : Status (Work ρ) ρ} (log : List Line)
      (call : s.table.call? n = some c) (running : c.isRunning = true)
      (outcome : ∀ o, st = .finished o → (o = .cancelled ↔ c.cancelled = true)) :
      Change s (s.setStatus n st log)
  | quit {i : Nat} {p : Participant ρ} (part : s.participants[i]? = some p) (fresh : p.caller = .fresh)
      (cancelled : p.cancelled = true) : Change s (s.setBoth s.table i (.done .cancelled))
  | join {i : Nat} {p : Participant ρ} {n : CallId} (part : s.participants[i]? = some p)
      (fresh : p.caller = .fresh) (uncancelled : p.cancelled = false)
      (slot : s.table.slots.get? p.key = some n) :
      Change s (s.setBoth (s.table.modify n fun c => { c with waiters := c.waiters + 1 }) i (.waiting n))
  | launch {i : Nat} {p : Participant ρ} (part : s.participants[i]? = some p)
      (fresh : p.caller = .fresh) (uncancelled : p.cancelled = false)
      (slot : s.table.slots.get? p.key = none) :
      Change s (s.setBoth ⟨s.table.slots.insert p.key s.table.calls.length, s.table.calls ++
          [{ key := p.key, status := .running (.launched p.instant), waiters := 1, cancelled := false }]⟩
        i (.waiting s.table.calls.length))
  | take {i : Nat} {p : Participant ρ} {n : CallId} {o : Outcome ρ} (part : s.participants[i]? = some p)
      (waiting : p.caller = .waiting n) (answer : s.table.answer? p.cancelled n = some o) :
      Change s (s.setBoth (s.table.detach n) i (.done o))

theorem change_runCaller (s : Callers ρ) (i : Nat) : Change s (s.runCaller i) := by
  unfold runCaller
  split
  · exact .idle
  · next p hp =>
      split
      · next hfresh =>
          split
          · next hcan => exact .quit hp hfresh hcan
          · next hcan =>
              have hcan : p.cancelled = false := Bool.eq_false_iff.2 hcan
              cases hslot : s.table.slots.get? p.key with
              | some n => rw [Table.attach_of_some hslot]; exact .join hp hfresh hcan hslot
              | none => rw [Table.attach_of_none hslot]; exact .launch hp hfresh hcan hslot
      · next n hwaiting =>
          split
          · next o ho => exact .take hp hwaiting ho
          · exact .idle
      · exact .idle

theorem change_runWork (s : Callers ρ) (n : CallId) : Change s (s.runWork n) := by
  unfold runWork
  split
  · exact .idle
  · next c hc =>
      split
      · exact .idle
      · next w hst =>
          have hrun : c.isRunning = true := isRunning_of_status hst
          split
          · next hcan => exact .work _ hc hrun fun o ho => by cases ho; simp [hcan]
          · next hcan =>
              have hresult : ∀ (r : ρ) (o : Outcome ρ),
                  Status.finished (ω := Work ρ) (Outcome.result r) = .finished o →
                  (o = .cancelled ↔ c.cancelled = true) := fun r o ho => by cases ho; simp [hcan]
              split
              · exact .work _ hc hrun (hresult _)
              · exact .work _ hc hrun fun o ho => by cases ho
              · exact .idle
              · exact .work s.log hc hrun (hresult _)

theorem change_answer (s : Callers ρ) (key : String) (r : ρ) : Change s (s.answer key r).2 := by
  unfold answer
  split
  · exact .idle
  · split
    · exact .idle
    · next c hc =>
        split
        · next hst => exact .work s.log hc (isRunning_of_status hst) fun o ho => by cases ho
        · exact .idle

theorem change_cancel (s : Callers ρ) (i : Nat) : Change s (s.cancel i).2 := by
  unfold cancel
  split
  · next p hp =>
      split
      · exact .idle
      · next hdone => exact .mark hp (Bool.eq_false_iff.2 hdone)
  · exact .idle

theorem change_act {e : Event ρ} (h : s.Admits e) : Change s (s.act e) := by
  cases e with
  | ask key instant => exact .come key instant
  | cancel i => exact change_cancel s i
  | answer key r => exact change_answer s key r
  | step x =>
      cases x with
      | forget n =>
          obtain ⟨c, hc, hfin⟩ := Option.map_eq_some_iff.1 (show _ = _ from h)
          exact .forget hc hfin
      | caller i => exact change_runCaller s i
      | work n => exact change_runWork s n

/-- What an event does to one call. -/
inductive CallTurn : Option (Call (Work ρ) ρ) → Option (Call (Work ρ) ρ) → Prop
  | stay (x : Option (Call (Work ρ) ρ)) : CallTurn x x
  | begin {c : Call (Work ρ) ρ} (running : c.isRunning = true) (uncancelled : c.cancelled = false) :
      CallTurn none (some c)
  | join (c : Call (Work ρ) ρ) : CallTurn (some c) (some { c with waiters := c.waiters + 1 })
  | leave (c : Call (Work ρ) ρ) : CallTurn (some c) (some c.deserted)
  | work {c : Call (Work ρ) ρ} {st : Status (Work ρ) ρ} (running : c.isRunning = true)
      (outcome : ∀ o, st = .finished o → (o = .cancelled ↔ c.cancelled = true)) :
      CallTurn (some c) (some { c with status := st })

/-- What an event does to one caller. -/
inductive Turn (s t : Callers ρ) : Option (Participant ρ) → Option (Participant ρ) → Prop
  | stay (x : Option (Participant ρ)) : Turn s t x x
  | come {p : Participant ρ} (fresh : p.caller = .fresh) : Turn s t none (some p)
  | mark {p : Participant ρ} (undone : p.caller.isDone = false) :
      Turn s t (some p) (some { p with cancelled := true })
  | quit {p : Participant ρ} (fresh : p.caller = .fresh) (cancelled : p.cancelled = true) :
      Turn s t (some p) (some { p with caller := .done .cancelled })
  | join {p : Participant ρ} {n : CallId} {c : Call (Work ρ) ρ} (fresh : p.caller = .fresh)
      (uncancelled : p.cancelled = false) (call : t.table.call? n = some c) (key : c.key = p.key) :
      Turn s t (some p) (some { p with caller := .waiting n })
  | take {p : Participant ρ} {n : CallId} {o : Outcome ρ} (waiting : p.caller = .waiting n)
      (answer : s.table.answer? p.cancelled n = some o) :
      Turn s t (some p) (some { p with caller := .done o })

theorem Change.callTurn (h : Change s t) (n : CallId) :
    CallTurn (s.table.call? n) (t.table.call? n) := by
  cases h with
  | idle => exact .stay _
  | come _ _ => exact .stay _
  | mark _ _ => exact .stay _
  | @forget m c hc _ =>
      dsimp only
      rw [Table.call?_forget]
      exact .stay _
  | @work m c st log hc hrun ho =>
      rw [table_setStatus, Table.call?_modify]
      split
      · next hnm => subst hnm; rw [hc]; exact .work hrun ho
      · exact .stay _
  | quit _ _ _ => exact .stay _
  | @join i p m _ _ _ _ =>
      rw [table_setBoth, Table.call?_modify]
      split
      · cases s.table.call? n with
        | none => exact .stay _
        | some c => exact .join c
      · exact .stay _
  | @launch i p _ _ _ _ =>
      rw [table_setBoth, Table.call?_append]
      split
      · next hn =>
          rw [Table.call?_eq_none_iff.2 (Nat.le_of_eq hn.symm)]
          exact .begin rfl rfl
      · exact .stay _
  | @take i p m o _ _ _ =>
      rw [table_setBoth, Table.call?_detach_eq]
      split
      · cases s.table.call? n with
        | none => exact .stay _
        | some c => exact .leave c
      · exact .stay _

/-- A call keeps its key, stays ended once it has ended, and is not asked to go on again. -/
theorem Change.call? (h : Change s t) (hc : s.table.call? n = some c) :
    ∃ c', t.table.call? n = some c' ∧ c'.key = c.key ∧ (c.isRunning = false → c'.status = c.status) ∧
      (c.cancelled = true → c'.cancelled = true) := by
  have hturn := h.callTurn n
  rw [hc] at hturn
  generalize t.table.call? n = x at hturn
  cases hturn with
  | stay => exact ⟨c, rfl, rfl, fun _ => rfl, id⟩
  | join => exact ⟨_, rfl, rfl, fun _ => rfl, id⟩
  | leave => exact ⟨_, rfl, rfl, fun _ => rfl, fun hcan => by simp [Call.deserted, hcan]⟩
  | work hrun _ => exact ⟨_, rfl, rfl, fun hfin => absurd (hrun.symm.trans hfin) (by decide), id⟩

/-! ### Slots and callers -/

/-- Each slot holds a call for its key that was not asked to stop, and work under way that was not asked
to stop is in its slot; each call has noted how many wait for it; and callers wait for calls for their
keys. -/
structure Seated (s : Callers ρ) : Prop where
  slot : ∀ {key : String} {n : CallId}, s.table.slots.get? key = some n →
    ∃ c, s.table.call? n = some c ∧ c.key = key ∧ c.cancelled = false
  held : ∀ {n : CallId} {c : Call (Work ρ) ρ}, s.table.call? n = some c → c.isRunning = true →
    c.cancelled = false → s.table.slots.get? c.key = some n
  counted : s.table.Counted s.awaiting
  waiting : ∀ {i : Nat} {p : Participant ρ} {n : CallId}, s.participants[i]? = some p →
    p.caller = .waiting n → ∃ c, s.table.call? n = some c ∧ c.key = p.key

theorem Seated.empty : Seated (∅ : Callers ρ) where
  slot h := by cases h
  held h := by cases h
  counted := .empty
  waiting h := by cases h

theorem getElem?_modify_caller {l : List (Participant ρ)} {f : Participant ρ → Participant ρ}
    (hp : l[i]? = some p) (j : Nat) : (l.modify i f)[j]? = if j = i then some (f p) else l[j]? := by
  rw [List.getElem?_modify]
  by_cases hij : i = j
  · subst hij; simp [hp]
  · simp [hij, Ne.symm hij]

theorem Change.turn (h : Change s t) (hs : Seated s) (i : Nat) :
    Turn s t s.participants[i]? t.participants[i]? := by
  cases h with
  | idle => exact .stay _
  | come key instant =>
      dsimp only
      rcases Nat.lt_or_ge i s.participants.length with hlt | hge
      · rw [List.getElem?_append_left hlt]; exact .stay _
      · rw [List.getElem?_append_right hge, List.getElem?_eq_none hge]
        cases hi : [(⟨key, instant, .fresh, false⟩ : Participant ρ)][i - s.participants.length]? with
        | none => exact .stay _
        | some p => exact .come (by rw [List.mem_singleton.1 (List.mem_of_getElem? hi)])
  | @mark j p hp hdone =>
      dsimp only
      rw [getElem?_modify_caller hp]
      split
      · next hij => subst hij; rw [hp]; exact .mark hdone
      · exact .stay _
  | forget _ _ => exact .stay _
  | work _ _ _ _ => exact .stay _
  | @quit j p hp hfresh hcan =>
      rw [participants_setBoth, getElem?_modify_caller hp]
      split
      · next hij => subst hij; rw [hp]; exact .quit hfresh hcan
      · exact .stay _
  | @join j p m hp hfresh hgo hslot =>
      rw [participants_setBoth, getElem?_modify_caller hp]
      split
      · next hij =>
          subst hij
          rw [hp]
          obtain ⟨c, hc, hk, -⟩ := hs.slot hslot
          refine .join (c := { c with waiters := c.waiters + 1 }) hfresh hgo ?_ hk
          rw [table_setBoth, Table.call?_modify, if_pos rfl, hc]
          rfl
      · exact .stay _
  | @launch j p hp hfresh hgo hslot =>
      rw [participants_setBoth, getElem?_modify_caller hp]
      split
      · next hij =>
          subst hij
          rw [hp]
          exact .join hfresh hgo ((Table.call?_append _ _ _ _).trans (if_pos rfl)) rfl
      · exact .stay _
  | @take j p m o hp hwaiting ho =>
      rw [participants_setBoth, getElem?_modify_caller hp]
      split
      · next hij => subst hij; rw [hp]; exact .take hwaiting ho
      · exact .stay _

theorem awaiting_setBoth (table : Table (Work ρ) ρ) (hp : s.participants[i]? = some p) (x : Caller ρ)
    (n : CallId) : (s.setBoth table i x).awaiting n + (if p.caller.awaits n = true then 1 else 0) =
      s.awaiting n + if x.awaits n = true then 1 else 0 :=
  countP_modify (fun p : Participant ρ => p.caller.awaits n) (fun p => { p with caller := x }) hp

/-- Who waits for a call is counted. -/
theorem awaiting_pos_iff : 0 < s.awaiting n ↔ ∃ i : Nat, s.caller? i = some (.waiting n) := by
  rw [awaiting, List.countP_pos_iff]
  constructor
  · rintro ⟨p, hp, hw⟩
    obtain ⟨i, hi⟩ := List.mem_iff_getElem?.1 hp
    exact ⟨i, by rw [caller?, hi]; exact congrArg some (Caller.awaits_iff.1 hw)⟩
  · rintro ⟨i, hi⟩
    obtain ⟨p, hp, hw⟩ := Option.map_eq_some_iff.1 hi
    exact ⟨p, List.mem_of_getElem? hp, Caller.awaits_iff.2 hw⟩

theorem Seated.change_counted (hs : Seated s) (h : Change s t) : t.table.Counted t.awaiting := by
  cases h with
  | idle => exact hs.counted
  | come key instant =>
      refine hs.counted.congr fun n => ?_
      simp [awaiting]
  | @mark j p hp _ =>
      refine hs.counted.congr fun n => ?_
      have hcount := countP_modify (fun p : Participant ρ => p.caller.awaits n)
        (fun p => { p with cancelled := true }) hp
      exact Nat.add_right_cancel hcount
  | forget _ _ => exact hs.counted.forget _
  | @work m c st log hc hrun _ =>
      exact hs.counted.modify (fun _ => rfl) (fun _ => rfl) fun c' hc' _ => by
        obtain rfl : c = c' := Option.some.inj (hc.symm.trans hc')
        exact hrun
  | @quit j p hp hfresh _ =>
      refine hs.counted.congr fun n => ?_
      simpa [hfresh] using awaiting_setBoth s.table hp (.done .cancelled) n
  | @join j p m hp hfresh _ hslot =>
      obtain ⟨c, hc, -, hgo⟩ := hs.slot hslot
      refine hs.counted.join hc hgo fun n => ?_
      simpa [hfresh] using awaiting_setBoth _ hp (.waiting m) n
  | @launch j p hp hfresh _ hslot =>
      refine hs.counted.launch _ _ _ fun n => ?_
      simpa [hfresh] using awaiting_setBoth _ hp (.waiting s.table.calls.length) n
  | @take j p m o hp hw _ =>
      obtain ⟨c, hc, -⟩ := hs.waiting hp hw
      refine hs.counted.leave hc fun n => ?_
      simpa [hw] using awaiting_setBoth (s.table.detach m) hp (.done o) n

theorem Seated.placed (hs : Seated s) : s.table.Placed := ⟨hs.slot, hs.held⟩

theorem Seated.change_placed (hs : Seated s) (h : Change s t) : t.table.Placed := by
  have hp := hs.placed
  cases h with
  | forget hc hfin => exact hp.forget hc fun hr => absurd (hr.symm.trans hfin) (by decide)
  | work log hc hrun _ =>
      refine hp.modify (fun _ => rfl) (fun _ => rfl) fun d hd _ => ?_
      rw [hc] at hd; cases hd
      exact hrun
  | join _ _ _ _ => exact hp.waiters (· + 1)
  | launch _ _ _ hslot => exact hp.launch hslot _ _
  | take _ _ _ => exact hp.detach _
  | _ => exact hp

theorem Seated.change (hs : Seated s) (h : Change s t) : Seated t where
  slot := (hs.change_placed h).slot
  held := (hs.change_placed h).held
  counted := hs.change_counted h
  waiting {i p n} hp hw := by
    have hkept : ∀ {q : Participant ρ}, s.participants[i]? = some q → q.caller = .waiting n →
        ∃ c, t.table.call? n = some c ∧ c.key = q.key := fun {q} hq hqw => by
      obtain ⟨c, hc, hk⟩ := hs.waiting hq hqw
      obtain ⟨c', hc', hk', -⟩ := h.call? hc
      exact ⟨c', hc', hk'.trans hk⟩
    have hturn := h.turn hs i
    rw [hp] at hturn
    generalize hx : s.participants[i]? = x at hturn
    cases hturn with
    | stay => exact hkept hx hw
    | come hfresh => rw [hfresh] at hw; cases hw
    | @mark q _ =>
        have hq : q.caller = .waiting n := hw
        have hkeptq := hkept hx hq
        exact hkeptq
    | quit _ _ => cases hw
    | @join q m c _ _ hc hk => cases hw; exact ⟨c, hc, hk⟩
    | take _ _ => cases hw

/-- Nobody waits for a call that was asked to stop. -/
theorem Seated.uncancelled (hs : Seated s) (hi : s.caller? i = some (.waiting n))
    (hc : s.table.call? n = some c) : c.cancelled = false := by
  have hpos : 0 < s.awaiting n := awaiting_pos_iff.2 ⟨i, hi⟩
  by_contra hcan
  have hzero := hs.counted.stopped hc (Bool.of_not_eq_false hcan)
  rw [hs.counted.waiters hc] at hzero
  omega

/-- Somebody waits for work under way that was not asked to stop. -/
theorem Seated.exists_waiting (hs : Seated s) (hc : s.table.call? n = some c)
    (hr : c.isRunning = true) (hgo : c.cancelled = false) : ∃ i : Nat, s.caller? i = some (.waiting n) := by
  rw [← awaiting_pos_iff, ← hs.counted.waiters hc]
  exact hs.counted.attended hc hr hgo

theorem seated_after : ∀ {past : List (Event ρ)}, Possible past → Seated (after past)
  | [], _ => .empty
  | _ :: _, h => (seated_after h.1).change (change_act h.2)

end HashedAssets.SingleFlight.Callers
