import HashedAssets.Proofs.Resolution.Equations
import HashedAssets.Proofs.Resolver.Moves

/-!
# What the host is asked

The host is asked about kept results when a request looks for one, and at no other time.

* `Watch.Exact`: a host that says what is outdated and nothing else; `Watch.of`: one that does;
* `host`: what the host answers and was asked;
* `host_runFlight`, `host_request`: what a flight and a request leave of this.
-/

namespace HashedAssets

/-- A host that says what is outdated: results made of other bytes than the source of their path gives. -/
def Watch.Exact (w : Watch) (k : Catalog) : Prop :=
  ∀ n p e d, k.entries.get? p = some d → (w.isStale n p e = true ↔ d.give 0 ≠ .ok e.asset.raw)

/-- The host that compares the bytes. -/
def Watch.of (k : Catalog) : Watch where
  isStale _ p e := match k.entries.get? p with
    | some d => match d.give 0 with
      | .ok b => b != e.asset.raw
      | .error _ => true
    | none => false
  asked := ∅

theorem Watch.exact_of (k : Catalog) : (Watch.of k).Exact k := by
  intro n p e d hd
  cases hgive : d.give 0 with
  | error g => simp [Watch.of, hd, hgive]
  | ok b => simp [Watch.of, hd, hgive]

namespace Resolver

open SingleFlight

/-- What the host answers, and what it was asked about. -/
def host (s : Resolver) : Option Watch × List String := (s.watch, s.checked)

theorem host_invalidate (s : Resolver) (p : String) : (s.invalidate p).2.host = s.host := by
  have hdrop : ∀ (s : Resolver) p, (s.dropOrDefer p).host = s.host := fun s p => by
    unfold dropOrDefer
    split <;> rfl
  unfold invalidate
  split
  · rfl
  · exact (eq_of_foldl (g := host) (f := mark) (fun _ _ => rfl) _ _).trans (eq_of_foldl hdrop _ _)

theorem host_fail (s : Resolver) (n : CallId) (p : String) (f : Failure) :
    (s.fail n p f).host = s.host := by
  unfold fail
  split <;> rfl

theorem host_succeed (s : Resolver) (n : CallId) (p : String) (r : Resolved) :
    (s.succeed n p r).host = s.host := by
  unfold succeed
  split <;> rfl

theorem host_conclude (s : Resolver) (n : CallId) (p : String) (a : Prepared) (es : List Edge)
    (kept : Option Resolved) (m : PathMap Resolved) : (s.conclude n p a es kept m).host = s.host := by
  unfold conclude
  split
  · exact host_succeed _ n p _
  · split
    · exact host_fail s n p _
    · exact host_succeed _ n p _

theorem host_gather (s : Resolver) (n : CallId) (p : String) (a : Prepared) (es : List Edge)
    (kept : Option Resolved) : (s.gather n p a es kept).host = s.host := by
  unfold gather
  split
  · exact host_conclude s n p a es kept ∅
  · rfl

theorem host_loaded (s : Resolver) (n : CallId) (p : String) (result : Except Fault Bytes) :
    (s.loaded n p result).host = s.host := by
  unfold loaded
  split
  · exact host_fail s n p _
  · split
    · exact host_fail s n p _
    · split
      · exact host_fail s n p _
      · dsimp only
        split
        · exact host_fail _ n p _
        · exact host_gather _ n p _ _ none

theorem host_load (s : Resolver) (n : CallId) (p : String) : (s.load n p).host = s.host := by
  unfold load
  split
  · exact host_fail s n p _
  · dsimp only
    split
    · exact host_loaded _ n p _
    · rfl

/-- A flight asks the host nothing. -/
theorem host_runFlight (s : Resolver) (n : CallId) : (s.runFlight n).host = s.host := by
  have hstart : ∀ p, (s.start n p).host = s.host := fun p => by
    unfold start
    dsimp only
    split
    · split
      · exact host_gather _ n p _ _ _
      · exact host_load _ n p
    · exact host_load _ n p
  unfold runFlight
  split
  · rfl
  · split
    · rfl
    · split
      · rfl
      · exact hstart _
    · split
      · rfl
      · split
        · exact host_loaded s n _ _
        · rfl
    · split
      · rfl
      · split
        · rfl
        · split
          · rfl
          · exact host_fail s n _ _
          · exact host_conclude s n _ _ _ _ _

theorem host_takeAnswer (s : Resolver) (i : RequestId) : (s.takeAnswer i).host = s.host := by
  have hleave : ∀ n, (s.leave n).host = s.host := fun n => by
    obtain ⟨rs, hrs, -⟩ := leave_eq s n
    rw [hrs]
    rfl
  unfold takeAnswer
  split
  · rfl
  · split
    · split
      · rfl
      · exact hleave _
      · exact hleave _
    · rfl

/-- A request asks the host about kept results, and nothing else. -/
theorem host_request (s : Resolver) (i : RequestId) (target : Target) (p : String) :
    (s.request i target p).host =
      if s.catalog.contains p then (s.kept? p).2.host else s.host := by
  unfold request
  split
  · next f hf =>
      rw [if_neg (by simp [Catalog.contains, PathMap.contains, (Catalog.get_eq_error hf).1])]
      rfl
  · next d hd =>
      rw [if_pos (Catalog.contains_iff.2 ⟨d, Catalog.get_eq_ok_iff.1 hd⟩)]
      split
      · next r t hk => rw [hk]; rfl
      · next t hk => rw [hk]; exact host_takeAnswer _ i

end Resolver

end HashedAssets
