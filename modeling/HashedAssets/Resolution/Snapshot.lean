import HashedAssets.Resolution.Basic

/-!
# Resolving all assets at once

All assets of a catalog are loaded, their graph is built, and each is resolved behind what it depends
on. What goes wrong is collected; there is a snapshot only if nothing does.

* `Snapshot`: all assets of a catalog, resolved;
* `Snapshot.build`: its construction, with the events reported on the way;
* `Snapshot.resolve`, `Snapshot.resolvePublic`: looking assets up.
-/

namespace HashedAssets

/-- All assets of a catalog, resolved. -/
structure Snapshot where
  context : Context
  /-- The paths in the order in which they were resolved. -/
  order : List String
  graph : Graph
  assets : PathMap Resolved
  /-- The logical path of each public path. -/
  byPublic : PathMap String

namespace Snapshot

/-! ### Loading -/

/-- What loading a set of paths gave: the raw bytes of each, the faults, and the events of these. -/
structure Loaded where
  raw : PathMap Bytes
  faults : List Fault
  events : List Event

/-- Load definitions one after the other. -/
def loadAll (c : Catalog) : List Definition → Loaded × Catalog
  | [] => (⟨∅, [], []⟩, c)
  | d :: rest =>
      let (fetched, c) := c.fetch d
      let (l, c) := loadAll c rest
      match fetched.result with
      | .ok b => ({ l with raw := l.raw.insert d.path b }, c)
      | .error f =>
          ({ l with faults := f :: l.faults, events := ⟨d.path, .failed, f.message⟩ :: l.events }, c)

/-! ### Resolving -/

/-- How far the assets have come: those resolved, those that cannot be resolved, their faults, and the
events. -/
structure Progress where
  resolved : PathMap Resolved
  failed : List String
  faults : List Fault
  events : List Event

/-- The faults that a failure of an asset adds to those of a build. -/
def faultsOf : Failure → List Fault
  | .fault f => [f]
  | .build fs => fs
  | _ => []

/-- Resolve one asset. One that depends on an asset without a result has none either; a failure that
does not lie in the assets ends everything. -/
def Progress.add (p : Progress) (x : Context) (c : Catalog) (a : Prepared) (edges : List Edge) :
    Except Failure Progress × List Event :=
  let path := a.definition.path
  let fail (faults : List Fault) (message : String) : Except Failure Progress × List Event :=
    let events := p.events ++ [⟨path, .failed, message⟩]
    (.ok { p with failed := path :: p.failed, faults := p.faults ++ faults, events }, events)
  if (Edge.targets edges).any p.failed.contains then fail [] "Dependency failed"
  else match x.resolve c a edges p.resolved with
    | .ok r =>
        let events := p.events ++ [⟨path, .completed, r.publicPath⟩]
        (.ok { p with resolved := p.resolved.insert path r, events }, events)
    | .error f => if f.isOfAsset then fail (faultsOf f) f.message else (.error f, p.events)

/-- Resolve assets one after the other. -/
def resolveAll (x : Context) (c : Catalog) (p : Progress) :
    List (Prepared × List Edge) → Except Failure Progress × List Event
  | [] => (.ok p, p.events)
  | (a, edges) :: rest =>
      match p.add x c a edges with
      | (.ok p, _) => resolveAll x c p rest
      | (.error f, events) => (.error f, events)

/-- A resolved asset with its content compressed, if it is embeddable. -/
def finish (x : Context) (c : Catalog) (r : Resolved) : Resolved :=
  match c.entries.get? r.path with
  | some d => if d.options.embeddable then { r with compressed := some (x.compress r.content) } else r
  | none => r

/-- The assets of a graph in the given order, with their edges. -/
def work (c : Catalog) (raw : PathMap Bytes) (graph : Graph)
    (directives : PathMap (List Directive)) (order : List String) : List (Prepared × List Edge) :=
  order.filterMap fun p => match c.entries.get? p, raw.get? p with
    | some d, some b => some (⟨d, b, (directives.get? p).getD []⟩, graph.edgesOf p)
    | _, _ => none

/-- Build the snapshot of loaded assets. -/
def ofLoaded (x : Context) (c : Catalog) (l : Loaded) : Except Failure Snapshot × List Event :=
  let assets := l.raw.mapValues fun p b =>
    (⟨b, ((c.entries.get? p).map (·.options.template)).getD true⟩ : RawAsset)
  match Graph.build (x.registered c) assets with
  | .error faults => (.error (.build faults), [])
  | .ok (graph, directives) =>
      match graph.order with
      | .error f => (.error (.fault f), [])
      | .ok order =>
          match resolveAll x c ⟨∅, [], [], []⟩ (work c l.raw graph directives order) with
          | (.error f, events) => (.error f, events)
          | (.ok p, events) =>
              match p.faults with
              | [] =>
                  let assets := p.resolved.mapValues fun _ r => finish x c r
                  let publics := order.filterMap fun q => (assets.get? q).map fun r => (r.publicPath, q)
                  (.ok { context := x, order, graph, assets, byPublic := PathMap.ofList publics },
                    events)
              | faults => (.error (.build faults), events)

/-- Resolve all assets of a catalog. Every asset is loaded, whatever goes wrong with others. -/
def build (x : Context) (c : Catalog) : Except Failure Snapshot × List Event × Catalog :=
  let pending := c.paths.map fun p => (⟨p, .pending, "Loading"⟩ : Event)
  let (l, c) := loadAll c c.definitions
  let loading := pending ++ l.events
  match l.faults with
  | [] =>
      let (result, events) := ofLoaded x c l
      (result, loading ++ events, c)
  | faults => (.error (.build faults), loading, c)

/-! ### Looking up -/

/-- The asset of a logical path. -/
def resolve (s : Snapshot) (path : String) : Except Failure Resolved :=
  match s.assets.get? path with
  | some r => .ok r
  | none => .error (.fault (.notFound path))

/-- The asset of a public path. -/
def resolvePublic (s : Snapshot) (publicPath : String) : Except Failure Resolved :=
  match s.byPublic.get? publicPath with
  | some path => s.resolve path
  | none => .error (.fault (.notFound publicPath))

/-- Whether there is an asset of a logical path. -/
def contains (s : Snapshot) (path : String) : Bool := s.assets.contains path

/-- The number of assets. -/
def size (s : Snapshot) : Nat := s.assets.size

end Snapshot

end HashedAssets
