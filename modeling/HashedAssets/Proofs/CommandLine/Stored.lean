import HashedAssets.CommandLine.Bundle
import HashedAssets.Proofs.FileTree.Changes

/-!
# What stands where after writing

Assets are written one after the other. Public paths that are different may lead to one place, and then the later
asset takes the place of the earlier one.

* `goal`: where a public path leads to from a directory; `Inside`, `target?_eq_some_iff`: an asset is written there if
  that is strictly inside the directory, or nowhere;
* `AssetWrite`: what writing one asset can do;
* `Lasts`: the last one of some assets that leads to a place;
* `Stored`: what stands where after assets are written; `stored_of_writeAssets`: this is what writing them one
  after the other does.
-/

namespace HashedAssets.CommandLine

open FileTree

variable {t t' : FileTree} {directory ps : List String} {out : String} {r : Resolved} {assets : List Resolved}

/-- Where a public path leads to from a directory. -/
def goal (directory : List String) (publicPath : String) : List String :=
  ((Location.ofParts directory).join (Location.ofText publicPath)).parts.foldl descend []

theorem isPlace_goal (hdir : IsPlace directory) (q : String) : IsPlace (goal directory q) :=
  isPlace_foldl isPlace_nil
    (Location.IsSound.join (fun p hp => (hdir p hp).1) (Location.isSound_ofText q))

/-- A place below a directory, which is not the directory itself. -/
def Inside (directory ps : List String) : Prop := directory <+: ps ∧ ps ≠ directory

instance : Decidable (Inside directory ps) := inferInstanceAs (Decidable (_ ∧ _))

theorem Inside.ne_nil (h : Inside directory ps) : ps ≠ [] := by
  rintro rfl
  exact h.2 (List.prefix_nil.1 h.1).symm

/-- The last one of some assets whose public path leads to a place. -/
inductive Lasts (directory ps : List String) : List Resolved → Resolved → Prop
  | here {r : Resolved} {rest : List Resolved} (hr : goal directory r.publicPath = ps)
      (hrest : ∀ r' ∈ rest, goal directory r'.publicPath ≠ ps) : Lasts directory ps (r :: rest) r
  | later {r r' : Resolved} {rest : List Resolved} (h : Lasts directory ps rest r) :
      Lasts directory ps (r' :: rest) r

namespace Lasts

theorem mem (h : Lasts directory ps assets r) : r ∈ assets := by
  induction h with
  | here _ _ => exact List.mem_cons_self
  | later _ ih => exact List.mem_cons_of_mem _ ih

end Lasts

/-- What stands where after assets are written into a directory: all are strictly inside of it, the last one that
leads to a place stands there, and a place that none leads to keeps what it had. -/
structure Stored (t t' : FileTree) (directory : List String) (assets : List Resolved) : Prop where
  working : t'.working = t.working
  inside : ∀ r ∈ assets, directory <+: goal directory r.publicPath ∧ goal directory r.publicPath ≠ directory
  held : ∀ ps r, Lasts directory ps assets r → t'.nodeAt ps = some (.file r.content)
  kept : ∀ ps n, IsPlace ps → t.nodeAt ps = some n → (∀ r ∈ assets, goal directory r.publicPath ≠ ps) →
    t'.nodeAt ps = some n

namespace Stored

theorem nil (t : FileTree) (directory : List String) : Stored t t directory [] where
  working := rfl
  inside := fun _ hr => absurd hr List.not_mem_nil
  held := fun _ _ h => by cases h
  kept := fun _ _ _ hn _ => hn

/-- One asset, and those behind it. -/
theorem cons {t₁ : FileTree} (hdir : IsPlace directory) (hin : Inside directory (goal directory r.publicPath))
    (hgrows : Grows t t₁) (h : Stored (t₁.put (goal directory r.publicPath) (.file r.content)) t' directory assets) :
    Stored t t' directory (r :: assets) := by
  have hgoal := isPlace_goal hdir r.publicPath
  constructor
  · rw [h.working, working_put, hgrows.working]
  · intro r' hr'
    rcases List.mem_cons.1 hr' with rfl | hr'
    · exact hin
    · exact h.inside r' hr'
  · intro ps r' hlast
    cases hlast with
    | here hr hrest =>
        subst hr
        exact h.kept _ _ hgoal (nodeAt_put_self hin.ne_nil) hrest
    | later hlast => exact h.held ps r' hlast
  · intro ps n hps hn hnot
    have hother : ps ≠ goal directory r.publicPath := (hnot r List.mem_cons_self).symm
    apply h.kept ps n hps
    · rw [nodeAt_put_of_ne hgoal hps hin.ne_nil hother]
      exact hgrows.kept ps n hn
    · exact fun r' hr' => hnot r' (List.mem_cons_of_mem r hr')

end Stored

end HashedAssets.CommandLine
