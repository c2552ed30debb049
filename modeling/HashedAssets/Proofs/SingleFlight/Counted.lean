import HashedAssets.Proofs.SingleFlight.Table

/-!
# Calls that count those who wait for them

* `Caller.awaits`: whether a caller waits for a call;
* `Table.Counted`: the number of waiting callers that each call of a table has noted is right, and only
  calls asked to stop go on without any;
* `Table.Counted.join`, `launch`, `leave`: callers come and go; `modify`, `forget`: work goes on.
-/

namespace HashedAssets.SingleFlight

universe u v

variable {ω : Type u} {ρ : Type v}

/-- Whether a caller waits for a call. -/
def Caller.awaits (c : Caller ρ) (n : CallId) : Bool :=
  match c with
  | .waiting m => n == m
  | _ => false

@[simp] theorem Caller.awaits_fresh (n : CallId) : (Caller.fresh : Caller ρ).awaits n = false := rfl

@[simp] theorem Caller.awaits_done (o : Outcome ρ) (n : CallId) : (Caller.done o).awaits n = false := rfl

@[simp] theorem Caller.awaits_waiting {m n : CallId} :
    (Caller.waiting m : Caller ρ).awaits n = true ↔ n = m := by
  simp [awaits]

theorem Caller.awaits_iff {c : Caller ρ} {n : CallId} : c.awaits n = true ↔ c = .waiting n := by
  cases c with
  | waiting m => rw [awaits_waiting, Caller.waiting.injEq, eq_comm]
  | fresh => simp
  | done o => simp

/-- When one element of a list changes, a count changes by that element. -/
theorem countP_modify {α : Type u} (q : α → Bool) (f : α → α) :
    ∀ {l : List α} {i : Nat} {a : α}, l[i]? = some a →
      (l.modify i f).countP q + (if q a then 1 else 0) = l.countP q + if q (f a) then 1 else 0
  | [], i, a, h => by simp at h
  | b :: l, 0, a, h => by
      obtain rfl : b = a := by simpa using h
      simp only [List.modify_zero_cons, List.countP_cons]
      omega
  | b :: l, i + 1, a, h => by
      have ih := countP_modify q f (l := l) (i := i) (a := a) (by simpa using h)
      simp only [List.modify_succ_cons, List.countP_cons]
      omega

theorem Call.outcome?_eq_none_iff {c : Call ω ρ} : c.outcome? = none ↔ c.isRunning = true := by
  cases hst : c.status <;> simp [Call.outcome?, Call.isRunning, hst]

/-- A call after one of its callers has gone: work under way is asked to stop if that was the last. -/
def Call.deserted (c : Call ω ρ) : Call ω ρ :=
  { c with
    waiters := c.waiters - 1
    cancelled := c.cancelled || (decide (c.waiters - 1 = 0) && c.isRunning) }

namespace Table

variable {t : Table ω ρ} {n : CallId} {c : Call ω ρ}

theorem call?_detach_eq (t : Table ω ρ) (n m : CallId) :
    (t.detach n).call? m = if m = n then (t.call? m).map Call.deserted else t.call? m := by
  unfold detach
  dsimp only
  rw [call?_modify, if_pos rfl]
  cases hc : t.call? n with
  | none =>
      dsimp only [Option.map_none]
      rw [call?_modify]
      split
      · next hmn => subst hmn; simp [hc]
      · rfl
  | some c =>
      dsimp only [Option.map_some]
      split
      · next hlast =>
          rw [call?_modify, call?_forget, call?_modify]
          split
          · next hmn =>
              subst hmn
              have hr : c.isRunning = true := hlast.2
              simp [hc, Call.deserted, hlast.1, hr]
          · rfl
      · next hlast =>
          rw [call?_modify]
          split
          · next hmn =>
              subst hmn
              have hno : (decide (c.waiters - 1 = 0) && c.isRunning) = false := by
                rw [← Bool.not_eq_true, Bool.and_eq_true, decide_eq_true_iff]
                exact hlast
              simp [hc, Call.deserted, hno]
          · rfl

/-- The calls after a caller of one of them has gone. -/
theorem call?_detach_cases {m : CallId} {c' : Call ω ρ} (hc : t.call? n = some c)
    (hc' : (t.detach n).call? m = some c') : (m = n ∧ c' = c.deserted) ∨ m ≠ n ∧ t.call? m = some c' := by
  rw [call?_detach_eq] at hc'
  split at hc'
  · next hmn =>
      subst hmn
      rw [hc] at hc'
      cases hc'
      exact .inl ⟨rfl, rfl⟩
  · next hmn => exact .inr ⟨hmn, hc'⟩

/-- A call keeps its slot when a caller goes, unless it was under way and the caller was its last. -/
theorem slots_detach (h : t.call? n = some c) (p : String) :
    (t.detach n).slots.get? p =
      if (p = c.key ∧ t.slots.get? p = some n) ∧ c.waiters - 1 = 0 ∧ c.isRunning = true then none
      else t.slots.get? p := by
  unfold detach
  dsimp only
  rw [call?_modify, if_pos rfl, h]
  dsimp only [Option.map_some]
  split
  · next hlast =>
      have hc' : (t.modify n fun c => { c with waiters := c.waiters - 1 }).call? n =
          some { c with waiters := c.waiters - 1 } := by rw [call?_modify, if_pos rfl, h]; rfl
      have hlast' : c.waiters - 1 = 0 ∧ c.isRunning = true := hlast
      rw [slots_modify, slots_forget hc', slots_modify]
      simp only [hlast', and_self, and_true]
  · next hlast =>
      have hlast' : ¬(c.waiters - 1 = 0 ∧ c.isRunning = true) := hlast
      rw [slots_modify, if_neg fun h => hlast' h.2]

/-- Each call has noted how many callers wait for it, `count n` for call `n`. Nobody waits for a call
asked to stop, and somebody waits for any other work under way. -/
structure Counted (t : Table ω ρ) (count : CallId → Nat) : Prop where
  waiters : ∀ {n c}, t.call? n = some c → c.waiters = count n
  beyond : ∀ {n}, t.call? n = none → count n = 0
  stopped : ∀ {n c}, t.call? n = some c → c.cancelled = true → c.waiters = 0
  attended : ∀ {n c}, t.call? n = some c → c.isRunning = true → c.cancelled = false → 0 < c.waiters

namespace Counted

variable {count count' : CallId → Nat}

theorem empty : (∅ : Table ω ρ).Counted fun _ => 0 where
  waiters h := by cases h
  beyond _ := rfl
  stopped h := by cases h
  attended h := by cases h

theorem congr (h : t.Counted count) (hcount : ∀ m, count' m = count m) : t.Counted count' := by
  obtain rfl : count' = count := funext hcount
  exact h

/-- Work goes on, or ends. -/
theorem modify (h : t.Counted count) {f : Call ω ρ → Call ω ρ} (hw : ∀ c, (f c).waiters = c.waiters)
    (hgo : ∀ c, (f c).cancelled = c.cancelled)
    (hrun : ∀ c, t.call? n = some c → (f c).isRunning = true → c.isRunning = true) :
    (t.modify n f).Counted count where
  waiters {m c'} hc' := by
    rcases call?_modify_cases hc' with ⟨-, c, hc, rfl⟩ | ⟨-, hc'⟩
    · exact (hw c).trans (h.waiters hc)
    · exact h.waiters hc'
  beyond {m} hm := by
    rw [call?_modify] at hm
    split at hm
    · exact h.beyond (Option.map_eq_none_iff.1 hm)
    · exact h.beyond hm
  stopped {m c'} hc' hcan := by
    rcases call?_modify_cases hc' with ⟨-, c, hc, rfl⟩ | ⟨-, hc'⟩
    · exact (hw c).trans (h.stopped hc ((hgo c).symm.trans hcan))
    · exact h.stopped hc' hcan
  attended {m c'} hc' hr hcan := by
    rcases call?_modify_cases hc' with ⟨rfl, c, hc, rfl⟩ | ⟨-, hc'⟩
    · exact lt_of_lt_of_eq (h.attended hc (hrun c hc hr) ((hgo c).symm.trans hcan)) (hw c).symm
    · exact h.attended hc' hr hcan

theorem finish (h : t.Counted count) (n : CallId) (o : Outcome ρ) : (t.finish n o).Counted count :=
  h.modify (fun _ => rfl) (fun _ => rfl) fun _ _ hr => by cases hr

theorem progress (h : t.Counted count) (hc : t.call? n = some c) (hr : c.isRunning = true) (w : ω) :
    (t.progress n w).Counted count :=
  h.modify (fun _ => rfl) (fun _ => rfl) fun c' hc' _ => by
    obtain rfl : c = c' := Option.some.inj (hc.symm.trans hc')
    exact hr

/-- A count looks at calls only. -/
theorem of_call? (h : t.Counted count) {t' : Table ω ρ} (hcalls : ∀ m, t'.call? m = t.call? m) :
    t'.Counted count where
  waiters hc := h.waiters (hcalls _ ▸ hc)
  beyond hc := h.beyond (hcalls _ ▸ hc)
  stopped hc := h.stopped (hcalls _ ▸ hc)
  attended hc := h.attended (hcalls _ ▸ hc)

theorem forget (h : t.Counted count) (n : CallId) : (t.forget n).Counted count :=
  h.of_call? fun m => call?_forget t n m

/-- One more waits for a call. -/
theorem join (h : t.Counted count) (hc : t.call? n = some c) (hgo : c.cancelled = false)
    (hcount : ∀ m, count' m = count m + if m = n then 1 else 0) :
    (t.modify n fun c => { c with waiters := c.waiters + 1 }).Counted count' where
  waiters {m c'} hc' := by
    rw [hcount m]
    rcases call?_modify_cases hc' with ⟨hmn, c₀, hc₀, rfl⟩ | ⟨hmn, hc'⟩
    · rw [if_pos hmn, ← h.waiters hc₀]
    · rw [if_neg hmn, ← h.waiters hc', Nat.add_zero]
  beyond {m} hm := by
    rw [call?_modify] at hm
    split at hm
    · next hmn => subst hmn; simp [hc] at hm
    · next hmn => rw [hcount m, if_neg hmn, h.beyond hm]
  stopped {m c'} hc' hcan := by
    rcases call?_modify_cases hc' with ⟨rfl, c₀, hc₀, rfl⟩ | ⟨-, hc'⟩
    · obtain rfl : c = c₀ := Option.some.inj (hc.symm.trans hc₀)
      exact absurd (hgo.symm.trans hcan) Bool.false_ne_true
    · exact h.stopped hc' hcan
  attended {m c'} hc' hr hcan := by
    rcases call?_modify_cases hc' with ⟨-, c₀, -, rfl⟩ | ⟨-, hc'⟩
    · exact Nat.succ_pos _
    · exact h.attended hc' hr hcan

/-- Somebody waits for new work. -/
theorem launch (h : t.Counted count) (p : String) (w : ω) (slots : PathMap CallId)
    (hcount : ∀ m, count' m = count m + if m = t.calls.length then 1 else 0) :
    Counted ⟨slots, t.calls ++ [{ key := p, status := .running w, waiters := 1, cancelled := false }]⟩
      count' := by
  have hcall : ∀ m, call? ⟨slots, t.calls⟩ m = t.call? m := fun _ => rfl
  have hnew : count t.calls.length = 0 := h.beyond (call?_eq_none_iff.2 (Nat.le_refl _))
  refine ⟨fun {m c'} hc' => ?_, fun {m} hm => ?_, fun {m c'} hc' hcan => ?_, fun {m c'} hc' hr hcan => ?_⟩
  · rw [call?_append] at hc'
    rw [hcount m]
    split at hc'
    · next hm => cases hc'; rw [if_pos hm, hm, hnew]
    · next hm => rw [if_neg hm, ← h.waiters ((hcall m).symm.trans hc'), Nat.add_zero]
  · rw [call?_append] at hm
    split at hm
    · cases hm
    · next hne => rw [hcount m, if_neg hne, h.beyond ((hcall m).symm.trans hm)]
  · rcases call?_append_cases hc' with ⟨-, rfl⟩ | hc'
    · cases hcan
    · exact h.stopped ((hcall m).symm.trans hc') hcan
  · rcases call?_append_cases hc' with ⟨-, rfl⟩ | hc'
    · exact Nat.one_pos
    · exact h.attended ((hcall m).symm.trans hc') hr hcan

/-- Somebody goes who waited for a call. -/
theorem leave (h : t.Counted count) (hc : t.call? n = some c)
    (hcount : ∀ m, count' m + (if m = n then 1 else 0) = count m) : (t.detach n).Counted count' := by
  have hn : c.waiters = count' n + 1 := by simpa [h.waiters hc] using (hcount n).symm
  have hother : ∀ {m}, m ≠ n → count' m = count m := fun {m} hm => by simpa [hm] using hcount m
  refine ⟨fun {m c'} hc' => ?_, fun {m} hm => ?_, fun {m c'} hc' hcan => ?_, fun {m c'} hc' hr hcan => ?_⟩
  · rcases call?_detach_cases hc hc' with ⟨rfl, rfl⟩ | ⟨hmn, hc'⟩
    · simp [Call.deserted, hn]
    · rw [hother hmn, h.waiters hc']
  · rw [call?_detach_eq] at hm
    split at hm
    · next hmn => subst hmn; simp [hc] at hm
    · next hmn => rw [hother hmn, h.beyond hm]
  · rcases call?_detach_cases hc hc' with ⟨rfl, rfl⟩ | ⟨-, hc'⟩
    · rcases Bool.or_eq_true_iff.1 hcan with hcan | hlast
      · exact absurd (h.stopped hc hcan) (by omega)
      · exact of_decide_eq_true (Bool.and_eq_true_iff.1 hlast).1
    · exact h.stopped hc' hcan
  · rcases call?_detach_cases hc hc' with ⟨rfl, rfl⟩ | ⟨-, hc'⟩
    · have hlast : ¬(c.waiters - 1 = 0 ∧ c.isRunning = true) := by
        simpa [Call.deserted] using (Bool.or_eq_false_iff.1 hcan).2
      exact Nat.pos_of_ne_zero fun h0 => hlast ⟨h0, hr⟩
    · exact h.attended hc' hr hcan

end Counted

end Table

end HashedAssets.SingleFlight
