import HashedAssets.Resolution.Snapshot
import HashedAssets.Resolver.Step

/-!
# Looking assets up

A service answers for the assets of a catalog that may be looked up. It stands on a snapshot or on a
resolver, as the settings say.

* `Service.create`: a service of settings and a catalog;
* `Handle`, `lookup`, `lookupPublic`: handles of assets, by logical and by public path;
* `info`, `manifest`, `paths`: what is known about assets.
-/

namespace HashedAssets

/-- A set of assets that can be looked up. -/
inductive Service
  | ofSnapshot (s : Snapshot) (catalog : Catalog)
  | ofResolver (r : Resolver)

/-- A handle of an asset: resolved already, or to be resolved whenever it is used. -/
inductive Handle
  | resolved (r : Resolved)
  | deferred (path : String) (target : Target)

namespace Handle

/-- The logical path of a handle. -/
def path : Handle → String
  | .resolved r => r.path
  | .deferred p _ => p

/-- The name of the kind of a handle. -/
def kind : Handle → String
  | .resolved _ => "EagerHandle"
  | .deferred .. => "LazyHandle"

/-- The text of a handle. -/
def text (h : Handle) : String :=
  match h with
  | .resolved r => h.kind ++ "(" ++ Text.quoted r.path ++ " -> " ++ Text.quoted r.publicPath ++ ")"
  | .deferred p _ => h.kind ++ "(" ++ Text.quoted p ++ ")"

end Handle

/-- What is known about an asset. -/
structure Info where
  path : String
  /-- There is none while the asset is not resolved. -/
  publicPath : Option String
  served : Bool
  dynamic : Bool
  hashed : Bool
  deriving DecidableEq, Repr

namespace Service

/-- The service that settings ask for, with functions in place of those that they name. All assets are
resolved here unless the settings leave that for later; what is reported on the way comes with it. -/
def create (settings : Settings) (c : Catalog) (hash compress : Option (Bytes → Bytes))
    (watch : Option Watch) : Except Failure Service × List Event :=
  match Context.make settings hash compress with
  | .error f => (.error f, [])
  | .ok x => match settings.mode with
    | .lazy => (.ok (.ofResolver (Resolver.make x c watch)), [])
    | .eager =>
        let (result, events, c) := Snapshot.build x c
        (result.map (.ofSnapshot · c), events)

/-- The catalog of a service. -/
def catalog : Service → Catalog
  | .ofSnapshot _ c => c
  | .ofResolver r => r.catalog

/-- Put another catalog in place. Assets that are resolved already stay as they are. -/
def withCatalog (s : Service) (c : Catalog) : Service :=
  match s with
  | .ofSnapshot s _ => .ofSnapshot s c
  | .ofResolver r => .ofResolver { r with catalog := c }

/-- The context of a service. -/
def context : Service → Context
  | .ofSnapshot s _ => s.context
  | .ofResolver r => r.context

/-- Whether assets are resolved when they are used. -/
def isDeferred : Service → Bool
  | .ofSnapshot .. => false
  | .ofResolver _ => true

/-! ### What is served -/

/-- Whether a path is registered and may be looked up. -/
def contains (s : Service) (path : String) : Bool :=
  ((s.catalog.entries.get? path).map (·.options.serve)).getD false

/-- The paths that may be looked up, ascending. -/
def paths (s : Service) : List String :=
  (s.catalog.definitions.filter (·.options.serve)).map (·.path)

/-- A path that may be looked up, or the fault that there is none. -/
def served (s : Service) (path : String) : Except Failure Unit :=
  if s.contains path then .ok () else .error (.fault (.notFound path))

/-! ### Looking up -/

/-- The handle of a logical path. -/
def lookup (s : Service) (path : String) : Except Failure Handle := do
  s.served path
  match s with
  | .ofSnapshot s _ => (s.resolve path).map .resolved
  | .ofResolver _ => pure (.deferred path (.logical path))

/-- The handle of a public path. -/
def lookupPublic (s : Service) (publicPath : String) : Except Failure Handle :=
  match s with
  | .ofSnapshot snapshot _ => do
      let r ← snapshot.resolvePublic publicPath
      s.served r.path
      pure (.resolved r)
  | .ofResolver r =>
      match r.logicalFor? publicPath with
      | none => .error (.fault (.notFound publicPath))
      | some path => (s.served path).map fun _ => .deferred path (.published publicPath)

/-- The source of an asset has changed. The paths whose results are dropped are given; a snapshot does
not change. -/
def invalidate (s : Service) (path : String) : Except Failure (List String) × Service :=
  match s with
  | .ofSnapshot .. => (.error .immutable, s)
  | .ofResolver r =>
      let (result, r) := r.invalidate path
      (result.map (·.1), .ofResolver r)

/-- What is counted; a snapshot counts nothing. -/
def stats? : Service → Option Stats
  | .ofSnapshot .. => none
  | .ofResolver r => some r.stats

/-! ### What is known about assets -/

/-- The resolved asset of a path as far as there is one; a snapshot has one of each of its paths. -/
def known (s : Service) (path : String) : Except Failure (Option Resolved) :=
  match s with
  | .ofSnapshot s _ => (s.resolve path).map some
  | .ofResolver r => .ok (r.cached path)

/-- What is known about a registered asset, served or not. -/
def info (s : Service) (path : String) : Except Failure Info := do
  let d ← s.catalog.get path
  let known ← s.known path
  let hashed ← s.context.isHashed s.catalog path
  pure { path, publicPath := known.map (·.publicPath), served := d.options.serve
         dynamic := d.isDynamic, hashed }

/-- The public paths of the assets that may be looked up, as far as there are any. -/
def manifest (s : Service) : Except Failure (List (String × String)) :=
  (s.paths.mapM fun p => (s.info p).map fun i => (p, i.publicPath)).map fun rows =>
    rows.filterMap fun x => x.2.map fun q => (x.1, q)

end Service

end HashedAssets
