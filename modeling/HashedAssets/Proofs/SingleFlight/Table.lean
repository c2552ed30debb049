import HashedAssets.SingleFlight.Table
import Mathlib.Tactic.Common

/-!
# Looking up in tables of shared work

What each change of a table does to its calls and its slots.

* `isRunning_iff`, `isRunning_eq_false_iff`: a call is under way, or it has ended;
* `call?_modify`, `call?_progress`, `call?_finish`: one call changes;
* `attach_of_some`, `attach_of_none`: a caller joins a call, or begins one;
* `detach_cases`: a caller goes, and the call goes on or is asked to stop;
* `Placed`: work under way is in its slot; every change of a table keeps it.
-/

namespace HashedAssets.SingleFlight

universe u v

variable {ω : Type u} {ρ : Type v}

/-! ### Calls under way, and calls that have ended -/

section Calls

variable {c c' : Call ω ρ}

theorem isRunning_iff : c.isRunning = true ↔ ∃ w, c.status = .running w := by
  cases hst : c.status <;> simp [Call.isRunning, hst]

theorem isRunning_eq_false_iff : c.isRunning = false ↔ ∃ o, c.status = .finished o := by
  cases hst : c.status <;> simp [Call.isRunning, hst]

theorem isRunning_of_status {w : ω} (h : c.status = .running w) : c.isRunning = true :=
  isRunning_iff.2 ⟨w, h⟩

theorem isRunning_eq_false_of_status {o : Outcome ρ} (h : c.status = .finished o) :
    c.isRunning = false := isRunning_eq_false_iff.2 ⟨o, h⟩

theorem not_finished_of_isRunning (h : c.isRunning = true) (o : Outcome ρ) : c.status ≠ .finished o := by
  intro ho
  rw [isRunning_eq_false_of_status ho] at h
  cases h

theorem isRunning_congr (h : c.status = c'.status) : c.isRunning = c'.isRunning := by
  unfold Call.isRunning; rw [h]

end Calls

namespace Table

variable {t : Table ω ρ} {m n : CallId} {p : String}

@[simp] theorem call?_modify (t : Table ω ρ) (n m : CallId) (f : Call ω ρ → Call ω ρ) :
    (t.modify n f).call? m = if m = n then (t.call? m).map f else t.call? m := by
  simp only [call?, modify, List.getElem?_modify]
  by_cases h : m = n
  · subst h; simp
  · simp [h, Ne.symm h]

/-- The calls after one of them has changed. -/
theorem call?_modify_cases {f : Call ω ρ → Call ω ρ} {c' : Call ω ρ}
    (h : (t.modify n f).call? m = some c') :
    (m = n ∧ ∃ c, t.call? m = some c ∧ c' = f c) ∨ m ≠ n ∧ t.call? m = some c' := by
  rw [call?_modify] at h
  split at h
  · next hmn =>
      obtain ⟨c, hc, rfl⟩ := Option.map_eq_some_iff.1 h
      exact .inl ⟨hmn, c, hc, rfl⟩
  · next hmn => exact .inr ⟨hmn, h⟩

@[simp] theorem slots_modify (t : Table ω ρ) (n : CallId) (f : Call ω ρ → Call ω ρ) :
    (t.modify n f).slots = t.slots := rfl

@[simp] theorem call?_progress (t : Table ω ρ) (n m : CallId) (w : ω) :
    (t.progress n w).call? m =
      if m = n then (t.call? m).map fun c => { c with status := .running w } else t.call? m :=
  call?_modify t n m _

@[simp] theorem slots_progress (t : Table ω ρ) (n : CallId) (w : ω) :
    (t.progress n w).slots = t.slots := rfl

@[simp] theorem call?_finish (t : Table ω ρ) (n m : CallId) (o : Outcome ρ) :
    (t.finish n o).call? m =
      if m = n then (t.call? m).map fun c => { c with status := .finished o } else t.call? m :=
  call?_modify t n m _

@[simp] theorem slots_finish (t : Table ω ρ) (n : CallId) (o : Outcome ρ) :
    (t.finish n o).slots = t.slots := rfl

/-- A call that is under way after another has ended is not that one. -/
theorem call?_of_finish {o : Outcome ρ} {c : Call ω ρ} (hc : (t.finish n o).call? m = some c)
    (hr : c.isRunning = true) : m ≠ n ∧ t.call? m = some c := by
  rcases call?_modify_cases hc with ⟨-, c₀, -, rfl⟩ | hother
  · cases hr
  · exact hother

theorem ne_of_key_ne {c c' : Call ω ρ} (hc : t.call? n = some c) (hc' : t.call? m = some c')
    (hk : c'.key ≠ c.key) : m ≠ n := by
  rintro rfl
  rw [hc] at hc'; cases hc'
  exact hk rfl

/-- Of two changes of a call's state the second counts. -/
theorem modify_modify (t : Table ω ρ) (n : CallId) {f g : Call ω ρ → Call ω ρ}
    (h : ∀ c, g (f c) = g c) : (t.modify n f).modify n g = t.modify n g := by
  have hcalls : (t.calls.modify n f).modify n g = t.calls.modify n g :=
    List.ext_getElem? fun m => by
      simp only [List.getElem?_modify]
      by_cases hm : n = m
      · cases t.calls[m]? <;> simp [hm, h]
      · cases t.calls[m]? <;> simp [hm]
  simp only [modify, hcalls]

theorem finish_progress (t : Table ω ρ) (n : CallId) (w : ω) (o : Outcome ρ) :
    (t.progress n w).finish n o = t.finish n o := modify_modify t n fun _ => rfl

theorem progress_progress (t : Table ω ρ) (n : CallId) (w w' : ω) :
    (t.progress n w).progress n w' = t.progress n w' := modify_modify t n fun _ => rfl

theorem inFlight_eq_false_iff : t.inFlight p = false ↔ t.slots.get? p = none := by
  simp [inFlight, PathMap.contains]

/-! ### Slots -/

@[simp] theorem call?_forget (t : Table ω ρ) (n m : CallId) : (t.forget n).call? m = t.call? m := by
  unfold forget
  split
  · split <;> rfl
  · rfl

/-- A slot that is forgotten is that of the call; all others stay. -/
theorem slots_forget {c : Call ω ρ} (h : t.call? n = some c) (p : String) :
    (t.forget n).slots.get? p =
      if p = c.key ∧ t.slots.get? p = some n then none else t.slots.get? p := by
  unfold forget
  rw [h]
  dsimp only
  split
  · next hs =>
      rw [PathMap.get?_erase]
      by_cases hp : p = c.key
      · simp [hp, hs]
      · simp [hp]
  · next hs =>
      by_cases hp : p = c.key
      · simp [hp, hs]
      · simp [hp]

/-! ### Callers that come and go -/

theorem attach_of_some (h : t.slots.get? p = some n) (w : ω) :
    t.attach p w = (n, t.modify n fun c => { c with waiters := c.waiters + 1 }) := by
  unfold attach
  rw [h]

theorem attach_of_none (h : t.slots.get? p = none) (w : ω) :
    t.attach p w = (t.calls.length, ⟨t.slots.insert p t.calls.length,
      t.calls ++ [{ key := p, status := .running w, waiters := 1, cancelled := false }]⟩) := by
  unfold attach
  rw [h]

theorem call?_eq_none_iff : t.call? n = none ↔ t.calls.length ≤ n := by
  simp [call?]

theorem lt_of_call?_eq_some {c : Call ω ρ} (h : t.call? n = some c) : n < t.calls.length := by
  by_contra hn
  rw [call?_eq_none_iff.2 (Nat.le_of_not_lt hn)] at h
  cases h

theorem call?_append (slots : PathMap CallId) (calls : List (Call ω ρ)) (c : Call ω ρ) (m : CallId) :
    call? ⟨slots, calls ++ [c]⟩ m = if m = calls.length then some c else call? ⟨slots, calls⟩ m := by
  unfold call?
  dsimp only
  by_cases h : m = calls.length
  · simp [h]
  · rw [if_neg h]
    rcases Nat.lt_or_ge m calls.length with hlt | hge
    · rw [List.getElem?_append_left hlt]
    · have hlen : (calls ++ [c]).length ≤ m := by
        rw [List.length_append, List.length_singleton]
        exact Nat.lt_of_le_of_ne hge (Ne.symm h)
      rw [List.getElem?_eq_none hlen, List.getElem?_eq_none hge]

/-- The calls after another one has begun. -/
theorem call?_append_cases {slots : PathMap CallId} {calls : List (Call ω ρ)} {c c' : Call ω ρ}
    (h : call? ⟨slots, calls ++ [c]⟩ m = some c') :
    (m = calls.length ∧ c' = c) ∨ call? ⟨slots, calls⟩ m = some c' := by
  rw [call?_append] at h
  split at h
  · next hm => cases h; exact .inl ⟨hm, rfl⟩
  · exact .inr h

/-- When a caller goes the call goes on; or it was the last caller of work under way, and the call
loses its slot and is asked to stop. -/
theorem detach_cases (t : Table ω ρ) (n : CallId) :
    t.detach n = t.modify n (fun c => { c with waiters := c.waiters - 1 }) ∨
    ∃ c, t.call? n = some c ∧ c.isRunning = true ∧
      t.detach n = ((t.modify n fun c => { c with waiters := c.waiters - 1 }).forget n).modify n
        fun c => { c with cancelled := true } := by
  unfold detach
  dsimp only
  rw [call?_modify, if_pos rfl]
  cases h : t.call? n with
  | none => exact .inl rfl
  | some c =>
      simp only [Option.map_some]
      split
      · next hw => exact .inr ⟨c, rfl, by simpa [Call.isRunning] using hw.2, rfl⟩
      · exact .inl rfl

/-- The calls are the same when a caller has gone, but for the number of callers and for whether they
are asked to stop. -/
theorem call?_detach (t : Table ω ρ) (n m : CallId) :
    ((t.detach n).call? m).map (fun c => (c.key, c.status)) =
      (t.call? m).map fun c => (c.key, c.status) := by
  rcases t.detach_cases n with he | ⟨c, -, -, he⟩
  · rw [he, call?_modify]
    split
    · cases t.call? m <;> rfl
    · rfl
  · rw [he, call?_modify, call?_forget, call?_modify]
    split
    · cases t.call? m <;> rfl
    · rfl

/-- No call that was asked to stop goes on again. -/
theorem cancelled_detach {c c' : Call ω ρ} (hc : t.call? m = some c)
    (hc' : (t.detach n).call? m = some c') (h : c'.cancelled = false) : c.cancelled = false := by
  rcases t.detach_cases n with he | ⟨d, -, -, he⟩
  · rw [he, call?_modify, hc] at hc'
    split at hc'
    · cases hc'; exact h
    · cases hc'; exact h
  · rw [he, call?_modify, call?_forget, call?_modify, hc] at hc'
    split at hc'
    · cases hc'; cases h
    · cases hc'; exact h

/-- A result comes from a call that has ended with it. -/
theorem answer?_eq_result {b : Bool} {a : ρ} (h : t.answer? b n = some (.result a)) :
    ∃ c, t.call? n = some c ∧ c.status = .finished (.result a) := by
  unfold answer? at h
  split at h
  · cases h
  · obtain ⟨c, hc, ho⟩ := Option.bind_eq_some_iff.1 h
    unfold Call.outcome? at ho
    split at ho
    · cases ho
    · next hst => cases ho; exact ⟨c, hc, hst⟩

/-! ### Tables that grow -/

@[simp] theorem length_modify (t : Table ω ρ) (n : CallId) (f : Call ω ρ → Call ω ρ) :
    (t.modify n f).calls.length = t.calls.length := by
  simp [modify]

@[simp] theorem length_forget (t : Table ω ρ) (n : CallId) :
    (t.forget n).calls.length = t.calls.length := by
  unfold forget
  split
  · split <;> rfl
  · rfl

@[simp] theorem length_detach (t : Table ω ρ) (n : CallId) :
    (t.detach n).calls.length = t.calls.length := by
  rcases t.detach_cases n with he | ⟨c, -, -, he⟩
  · rw [he, length_modify]
  · rw [he, length_modify, length_forget, length_modify]

theorem slots_of_forget (h : (t.forget n).slots.get? p = some m) : t.slots.get? p = some m := by
  cases hc : t.call? n with
  | none => simpa [forget, hc] using h
  | some c =>
      rw [slots_forget hc] at h
      split at h
      · cases h
      · exact h

theorem slots_of_detach (h : (t.detach n).slots.get? p = some m) : t.slots.get? p = some m := by
  rcases t.detach_cases n with he | ⟨c, -, -, he⟩
  · rwa [he, slots_modify] at h
  · rw [he, slots_modify] at h
    rw [← slots_modify t n fun c => { c with waiters := c.waiters - 1 }]
    exact slots_of_forget h

/-! ### Work in its slot -/

/-- Each slot holds a call for its key that was not asked to stop, and work under way that was not asked
to stop is in its slot. -/
structure Placed (t : Table ω ρ) : Prop where
  slot : ∀ {key n}, t.slots.get? key = some n → ∃ c, t.call? n = some c ∧ c.key = key ∧ c.cancelled = false
  held : ∀ {n c}, t.call? n = some c → c.isRunning = true → c.cancelled = false →
    t.slots.get? c.key = some n

namespace Placed

variable {c : Call ω ρ}

theorem modify (h : t.Placed) {f : Call ω ρ → Call ω ρ} (hkey : ∀ c, (f c).key = c.key)
    (hcancelled : ∀ c, (f c).cancelled = c.cancelled)
    (hrunning : ∀ c, t.call? n = some c → (f c).isRunning = true → c.isRunning = true) :
    (t.modify n f).Placed where
  slot {p m} hs := by
    obtain ⟨c, hc, hp, hgo⟩ := h.slot hs
    rw [call?_modify]
    split
    · exact ⟨f c, by rw [hc]; rfl, (hkey c).trans hp, (hcancelled c).trans hgo⟩
    · exact ⟨c, hc, hp, hgo⟩
  held {m c} hc hr hgo := by
    rcases call?_modify_cases hc with ⟨rfl, c₀, hc₀, rfl⟩ | ⟨-, hc⟩
    · rw [hkey]
      exact h.held hc₀ (hrunning c₀ hc₀ hr) ((hcancelled c₀).symm.trans hgo)
    · exact h.held hc hr hgo

/-- A call that begins takes the slot of its key. -/
theorem launch (h : t.Placed) (hp : t.slots.get? p = none) (w : ω) (k : Nat) :
    Placed ⟨t.slots.insert p t.calls.length, t.calls ++ [⟨p, .running w, k, false⟩]⟩ where
  slot {q m} hs := by
    rw [PathMap.get?_insert] at hs
    rw [call?_append]
    split at hs
    · next hq => cases hs; exact ⟨_, if_pos rfl, hq.symm, rfl⟩
    · obtain ⟨c, hc, hq, hgo⟩ := h.slot hs
      exact ⟨c, by rw [if_neg (Nat.ne_of_lt (lt_of_call?_eq_some hc))]; exact hc, hq, hgo⟩
  held {m c} hc hr hgo := by
    rw [PathMap.get?_insert]
    rcases call?_append_cases hc with ⟨rfl, rfl⟩ | hc
    · rw [if_pos rfl]
    · have hslot := h.held hc hr hgo
      split
      · next hq => rw [hq, hp] at hslot; cases hslot
      · exact hslot

theorem forget (h : t.Placed) (hc : t.call? n = some c) (hdone : c.isRunning = true → c.cancelled = true) :
    (t.forget n).Placed where
  slot {p m} hs := by
    rw [slots_forget hc] at hs
    rw [call?_forget]
    split at hs
    · cases hs
    · exact h.slot hs
  held {m c'} hc' hr hgo := by
    rw [call?_forget] at hc'
    rw [slots_forget hc]
    have hslot := h.held hc' hr hgo
    split
    · next hq =>
        rw [hslot] at hq
        obtain ⟨-, hmn⟩ := hq
        cases hmn
        rw [hc] at hc'; cases hc'
        rw [hdone hr] at hgo; cases hgo
    · exact hslot

/-- A call that is asked to stop loses its slot. -/
theorem silence (h : t.Placed) (hc : t.call? n = some c) :
    ((t.forget n).modify n fun c => { c with cancelled := true }).Placed where
  slot {p m} hs := by
    rw [slots_modify, slots_forget hc] at hs
    rw [call?_modify, call?_forget]
    split at hs
    · cases hs
    · next hne =>
        obtain ⟨c', hc', hp, hgo⟩ := h.slot hs
        have hmn : m ≠ n := by
          rintro rfl
          rw [hc] at hc'; cases hc'
          exact hne ⟨hp.symm, hs⟩
        exact ⟨c', by rw [if_neg hmn]; exact hc', hp, hgo⟩
  held {m c'} hc' hr hgo := by
    rw [call?_modify, call?_forget] at hc'
    rw [slots_modify, slots_forget hc]
    split at hc'
    · obtain ⟨c₀, -, rfl⟩ := Option.map_eq_some_iff.1 hc'
      cases hgo
    · next hmn =>
        have hslot := h.held hc' hr hgo
        split
        · next hq => rw [hslot] at hq; exact absurd (Option.some.inj hq.2) hmn
        · exact hslot

theorem waiters (h : t.Placed) (f : Nat → Nat) :
    (t.modify n fun c => { c with waiters := f c.waiters }).Placed :=
  h.modify (fun _ => rfl) (fun _ => rfl) fun _ _ => id

theorem detach (h : t.Placed) (n : CallId) : (t.detach n).Placed := by
  rcases t.detach_cases n with he | ⟨c, hc, -, he⟩
  · rw [he]; exact h.waiters (· - 1)
  · rw [he]
    refine (h.waiters (· - 1)).silence (c := { c with waiters := c.waiters - 1 }) ?_
    rw [call?_modify, if_pos rfl, hc]
    rfl

end Placed

end Table

end HashedAssets.SingleFlight
