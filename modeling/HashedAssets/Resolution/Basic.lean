import HashedAssets.Catalog.Basic
import HashedAssets.Directive.Render
import HashedAssets.Fingerprint
import HashedAssets.Graph.Build
import HashedAssets.Settings.Basic

/-!
# Resolving one asset

An asset is resolved when everything it depends on is: each directive is replaced by its value, the
result is hashed together with the digests of the dependencies, and the digest gives the public path.

* `Context`: settings, hash function and compressor;
* `Prepared`: an asset whose directives are read, `Context.prepare`;
* `Resolved`: a resolved asset, `Context.resolve`;
* `Event`: what is reported while assets are resolved.
-/

namespace HashedAssets

/-! ### Contexts -/

/-- What stays the same while assets are resolved. -/
structure Context where
  settings : Settings
  hash : Bytes → Bytes
  compress : Bytes → Bytes

/-- A context of settings, with functions in place of those that the settings name. Digests have to be
as long as the part of them that stands in a path. -/
def Context.make (settings : Settings) (hash compress : Option (Bytes → Bytes)) :
    Except Failure Context :=
  let x : Context :=
    { settings
      hash := hash.getD settings.hasher.run
      compress := compress.getD settings.compressor.run }
  let available := (x.hash []).length
  if available < settings.hashLength then .error (.digestSize available settings.hashLength)
  else .ok x

/-- Whether the public path of an asset carries its digest. -/
def Context.isHashed (x : Context) (c : Catalog) (path : String) : Except Failure Bool :=
  c.isHashed x.settings.overrides path

/-- What is known about paths when edges are derived. -/
def Context.registered (x : Context) (c : Catalog) : Registered :=
  { isRegistered := c.contains
    isHashed := fun p => (x.isHashed c p).toOption.getD false }

/-! ### Prepared assets -/

/-- An asset whose raw bytes are loaded and whose directives are read. -/
structure Prepared where
  definition : Definition
  raw : Bytes
  directives : List Directive

/-- Read the directives of an asset and derive its edges. -/
def Context.prepare (x : Context) (c : Catalog) (d : Definition) (raw : Bytes) :
    Except Failure (Prepared × List Edge) :=
  match RawAsset.directives ⟨raw, d.options.template⟩ d.path with
  | .error f => .error (.fault f)
  | .ok ds =>
      let (edges, faults) := edgesFor (x.registered c) d.path ds
      match Failure.ofFaults faults with
      | some f => .error f
      | none => .ok (⟨d, raw, ds⟩, edges)

/-! ### Resolved assets -/

/-- A resolved asset. -/
structure Resolved where
  path : String
  publicPath : String
  digest : Bytes
  content : Bytes
  /-- The compressed content, where an embeddable asset was resolved together with all others. -/
  compressed : Option Bytes
  /-- Whether the public path carries the digest. -/
  hashed : Bool
  edges : List Edge
  /-- The digests of the dependencies that went into the digest. -/
  dependencyDigests : PathMap Bytes
  deriving DecidableEq

/-- The assets that a resolved one includes. -/
def Resolved.includes (r : Resolved) : List String :=
  Edge.targets (r.edges.filter (·.kind == .include))

/-- A resolved asset among those given. -/
def need (resolved : PathMap Resolved) (path : String) : Except Failure Resolved :=
  match resolved.get? path with
  | some r => .ok r
  | none => .error (.unresolved path)

/-- What is put in the place of a directive. The path of an asset whose public path carries no digest
is its logical path, whether or not it is resolved. -/
def Context.valueOf (x : Context) (c : Catalog) (resolved : PathMap Resolved) (path : String)
    (d : Directive) : Except Failure Bytes :=
  match d.kind with
  | .include => (need resolved d.target).map (·.content)
  | .path => do
      if ← x.isHashed c d.target then
        (need resolved d.target).map fun r => Bytes.ofText r.publicPath
      else pure (Bytes.ofText d.target)
  | .variable =>
      match x.settings.values.get? d.target with
      | some v => .ok (Bytes.ofText v)
      | none => .error (.fault (.undefinedVariable path d.target))

/-- The digests of the targets of edges, in ascending order of the targets and each once. -/
def digestsOf (resolved : PathMap Resolved) (edges : List Edge) :
    Except Failure (List (String × Bytes)) :=
  (ascending (Edge.targets edges)).mapM fun t => (need resolved t).map fun r => (t, r.digest)

/-- Resolve an asset all of whose dependencies are resolved. -/
def Context.resolve (x : Context) (c : Catalog) (a : Prepared) (edges : List Edge)
    (resolved : PathMap Resolved) : Except Failure Resolved := do
  let path := a.definition.path
  let content ← Directive.render a.raw a.directives (x.valueOf c resolved path)
  let digests ← digestsOf resolved edges
  let digest := digest x.hash content digests
  let hashed ← x.isHashed c path
  let publicPath ←
    if hashed then
      publicPath path digest x.settings.hashLength a.definition.options.hashBetween
    else pure path
  pure { path, publicPath, digest, content, compressed := none, hashed, edges
         dependencyDigests := PathMap.ofList digests }

/-! ### Events -/

/-- How far an asset has come. -/
inductive Status
  | pending
  | cached
  | completed
  | failed
  deriving DecidableEq, Repr

/-- The word for a status. -/
def Status.word : Status → String
  | .pending => "pending"
  | .cached => "cached"
  | .completed => "completed"
  | .failed => "failed"

/-- A report on one asset. -/
structure Event where
  path : String
  status : Status
  message : String
  deriving DecidableEq, Repr

end HashedAssets
