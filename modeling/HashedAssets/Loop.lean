/-!
# Loops

A loop repeats a step. A step goes on with another state, or it ends the loop with a result.

* `Loop.run`: the result of a loop that ends within a number of steps;
* `Loop.exists_run`: a loop with an invariant that counts the steps ahead ends, and the result is what
  the invariant promises.
-/

namespace HashedAssets.Loop

universe u v

variable {σ : Type u} {α : Type v} {step : σ → σ ⊕ α} {s s' : σ} {a b : α} {m n : Nat}

/-- The result of a loop, if it ends within `n` steps. -/
def run (step : σ → σ ⊕ α) : Nat → σ → Option α
  | 0, _ => none
  | n + 1, s =>
      match step s with
      | .inl s' => run step n s'
      | .inr a => some a

theorem run_of_inl (h : step s = .inl s') (n : Nat) : run step (n + 1) s = run step n s' := by
  rw [run, h]

theorem run_of_inr (h : step s = .inr a) (n : Nat) : run step (n + 1) s = some a := by
  rw [run, h]

/-- A loop that has ended is not changed by more steps. -/
theorem run_of_le (h : run step m s = some a) (hmn : m ≤ n) : run step n s = some a := by
  induction m generalizing n s with
  | zero => cases h
  | succ m ih =>
      obtain ⟨n, rfl⟩ := Nat.exists_eq_add_of_le' (Nat.le_trans (Nat.succ_pos m) hmn)
      cases hs : step s with
      | inl s' =>
          rw [run_of_inl hs] at h ⊢
          exact ih h (Nat.le_of_succ_le_succ hmn)
      | inr a' =>
          rw [run_of_inr hs] at h ⊢
          exact h

theorem run_unique (h : run step m s = some a) (h' : run step n s = some b) : a = b := by
  have hm := run_of_le h (Nat.le_max_left m n)
  rw [run_of_le h' (Nat.le_max_right m n)] at hm
  exact (Option.some.inj hm).symm

/-- A loop ends if an invariant says of each state how many steps are still to come at most, and its
result is what the invariant promises of the last state. -/
theorem exists_run (Inv : Nat → σ → Prop) {Post : α → Prop}
    (hnext : ∀ k s s', Inv k s → step s = .inl s' → ∃ j < k, Inv j s')
    (hlast : ∀ k s a, Inv k s → step s = .inr a → Post a) {k : Nat} (hs : Inv k s) (hn : k < n) :
    ∃ a, run step n s = some a ∧ Post a := by
  induction n generalizing k s with
  | zero => exact absurd hn (Nat.not_lt_zero k)
  | succ n ih =>
      cases h : step s with
      | inl s' =>
          obtain ⟨j, hj, hs'⟩ := hnext k s s' hs h
          rw [run_of_inl h]
          exact ih hs' (by omega)
      | inr a => exact ⟨a, run_of_inr h n, hlast k s a hs h⟩

end HashedAssets.Loop
