import HashedAssets.Resolver.Basic

/-!
# Dropping kept results

When a source changes, the asset and all that includes it are dropped, and all else that depends on
these is marked: its result is checked before it is used again. What is in flight is dropped when its
flight ends.

* `drop`, `land`: one asset;
* `affected`, `invalidate`, `clear`: all that a change concerns, and everything;
* `dropStale`: the results that the host says are outdated.
-/

namespace HashedAssets.Resolver

/-- Drop the kept result of a path, its public path and its edges. -/
def drop (s : Resolver) (path : String) : Resolver :=
  { s with
    entries := s.entries.erase path
    byPublic := match s.entries.get? path with
      | some e => s.byPublic.erase e.resolved.publicPath
      | none => s.byPublic
    graph := s.graph.setEdges path [] }

/-- Drop the kept result of a path; while a flight for it is under way, only when that ends. -/
def dropOrDefer (s : Resolver) (path : String) : Resolver :=
  if s.flights.inFlight path then
    { s with dropOnLanding := insertAscending path s.dropOnLanding }
  else s.drop path

/-- Have the kept result of a path checked before it is used again. -/
def mark (s : Resolver) (path : String) : Resolver :=
  { s with entries := s.entries.modify path fun e => { e with needsCheck := true } }

/-- What a change of a source concerns: the asset with all that includes it, and all else that depends
on one of these. -/
def affected (s : Resolver) (path : String) : List String × List String :=
  let dropped := path :: s.graph.includers path
  let dependents := ascending (dropped.flatMap s.graph.dependents)
  (dropped, dependents.filter fun p => !dropped.contains p)

/-- The source of an asset has changed. -/
def invalidate (s : Resolver) (path : String) :
    Except Failure (List String × List String) × Resolver :=
  match s.catalog.get path with
  | .error f => (.error f, s)
  | .ok _ =>
      let (dropped, marked) := s.affected path
      let s := { s with stats := { s.stats with invalidations := s.stats.invalidations + 1 } }
      (.ok (dropped, marked), marked.foldl mark (dropped.foldl dropOrDefer s))

/-- Drop every kept result, and count from zero. -/
def clear (s : Resolver) : Resolver :=
  { s.entries.keys.foldl dropOrDefer s with stats := {} }

/-- Ask the host about one path, if it is kept and not in flight, and drop what is outdated. -/
def checkPath (s : Resolver) (path : String) : Resolver :=
  -- an answer before this one may have dropped the entry, so it is looked up here
  match s.watch, s.entries.get? path with
  | some w, some e =>
      if s.flights.inFlight path then s
      else
        let (stale, w) := w.ask path e
        let s := { s with watch := some w, checked := s.checked ++ [path] }
        if stale then (s.invalidate path).2 else s
  | _, _ => s

/-- Ask the host about everything that a path needs, as far as it is kept. -/
def dropStale (s : Resolver) (path : String) : Resolver :=
  (s.graph.closure path).foldl checkPath s

end HashedAssets.Resolver
