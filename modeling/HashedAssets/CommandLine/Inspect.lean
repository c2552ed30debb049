import HashedAssets.CommandLine.Listing

/-!
# Showing how assets depend on one another

* `inspect`: the assets in the order in which they are resolved, each with what it depends on.
-/

namespace HashedAssets.CommandLine

/-- The lines of an asset: its number, its paths, and what it depends on. -/
def resolvedLines (c : Catalog) (number : Nat) (r : Resolved) : List Line :=
  let served := ((c.entries.get? r.path).map (·.options.serve)).getD false
  .text ("  " ++ toString number ++ ". " ++ r.path ++ " -> " ++ r.publicPath
      ++ (if served then "" else " (not served)"))
    :: r.edges.map fun e => .text ("       " ++ e.kind.word ++ ": " ++ e.target)

/-- The lines of a snapshot. -/
def snapshotLines (s : Snapshot) (c : Catalog) : List Line :=
  let assets := s.order.filterMap s.assets.get?
  [.text ("Assets: " ++ toString s.size), .buildTime, .text "\nEvaluation order:"]
    ++ (assets.zipIdx.map fun x => resolvedLines c (x.2 + 1) x.1).flatten

/-- Show the assets that the settings in a file list. -/
def inspect (t : FileTree) (settings root : String) : Outcome :=
  match snapshotOf t settings root with
  | .error f => ⟨[], some f, t⟩
  | .ok (s, c) => ⟨snapshotLines s c, none, t⟩

end HashedAssets.CommandLine
