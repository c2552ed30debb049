import HashedAssets.Catalog.Definition
import HashedAssets.PathMap
import HashedAssets.Text.Glob

/-!
# The catalog of registered assets

* `add`, `addStatic`, `addDynamic`, `addParts`, `addDirectory`, `ofManifest`: registering assets;
* `get`, `contains`, `paths`, `definitions`: what is registered;
* `isHashed`: whether a public path carries a digest;
* `fetch`, `load`: the bytes of an asset.

A loader is told apart from others by the path that it is registered under; the catalog counts the
calls of the latest counted loader of each path.
-/

namespace HashedAssets

/-- The registered assets, and how often the latest counted loader of each path was called. -/
structure Catalog where
  entries : PathMap Definition
  calls : PathMap Nat

namespace Catalog

/-- The catalog without assets. -/
def empty : Catalog := ⟨∅, ∅⟩

instance : EmptyCollection Catalog := ⟨empty⟩

instance : Inhabited Catalog := ⟨empty⟩

/-! ### Registering -/

/-- Count the calls of a loader of a path from zero. -/
def countCalls (c : Catalog) (path : String) : Catalog := { c with calls := c.calls.insert path 0 }

/-- Register a definition, in place of one of its path. -/
def add (c : Catalog) (d : Definition) : Catalog :=
  let c := { c with entries := c.entries.insert d.path d }
  if (d.source.loader?.map Loader.isCounted).getD false then c.countCalls d.path else c

/-- Register bytes under a path. -/
def addStatic (c : Catalog) (path : String) (content : Bytes) (choices : Choices) :
    Except Failure (Definition × Catalog) :=
  (Definition.make path (.static content) (choices.options true)).map fun d => (d, c.add d)

/-- Register a loader under a path; unless it is said, such an asset is not embeddable. -/
def addDynamic (c : Catalog) (path : String) (loader : Loader) (choices : Choices) :
    Except Failure (Definition × Catalog) :=
  (Definition.make path (.dynamic loader none) (choices.options false)).map fun d => (d, c.add d)

/-- Register an asset from parts. The calls of a counted loader among them are counted from zero, also
if the bytes do not come from it and it is never called. -/
def addParts (c : Catalog) (path : String) (origin : Origin) (content : Option Bytes)
    (loader : Option Loader) (choices : Choices) : Except Failure (Definition × Catalog) :=
  (Definition.ofParts path origin content loader (choices.options true)).map fun d =>
    (d, if (loader.map Loader.isCounted).getD false then (c.add d).countCalls path else c.add d)

/-- A name in a listing, with slashes for backslashes and without slashes in front. -/
def entryName (name : String) : String :=
  let slashed := name.toList.map fun c => if c = '\\' then '/' else c
  String.ofList (slashed.dropWhile (· == '/'))

/-- The logical path of a name in a directory; without a directory it is the name. -/
def entryPath (directory name : String) : String :=
  if directory = "" then name
  else String.ofList ((directory.toList.reverse.dropWhile (· == '/')).reverse) ++ "/" ++ name

/-- Register entries one after the other, and give their definitions in that order. An entry that
cannot be registered ends this; those before it stay registered. -/
def addEntries (c : Catalog) (directory : String) (choices : Choices) :
    List (String × Bytes) → Except Failure (List Definition) × Catalog
  | [] => (.ok [], c)
  | (name, content) :: rest =>
      match Definition.make (entryPath directory name) (.directory content)
          (choices.options true) with
      | .error f => (.error f, c)
      | .ok d =>
          let (ds, c) := addEntries (c.add d) directory choices rest
          (ds.map (d :: ·), c)

/-- The entries of a listing in the order of their names as listed. -/
def inNameOrder (listing : List (String × Bytes)) : List (String × Bytes) :=
  listing.mergeSort fun a b => decide (a.1 ≤ b.1)

/-- The entries of a listing whose names match a pattern. -/
def matching (pattern : String) (listing : List (String × Bytes)) : List (String × Bytes) :=
  ((inNameOrder listing).map fun e => (entryName e.1, e.2)).filter fun e =>
    Text.Glob.matchesGlob pattern e.1

/-- Register every entry of a listing whose name matches a pattern. -/
def addDirectory (c : Catalog) (directory pattern : String) (listing : List (String × Bytes))
    (choices : Choices) : Except Failure (List Definition) × Catalog :=
  addEntries c directory choices (matching pattern listing)

/-- A row of a manifest: path, bytes, and whether the asset is embeddable and hashable. -/
abbrev Row := String × Bytes × Bool × Bool

/-- Register the rows of a manifest. -/
def addRows (c : Catalog) : List Row → Except Failure Catalog
  | [] => .ok c
  | (path, content, embeddable, hashable) :: rest => do
      let (_, c) ← c.addStatic path content
        { embeddable := some embeddable, hashable := some hashable }
      addRows c rest

/-- The catalog of a manifest. -/
def ofManifest (rows : List Row) : Except Failure Catalog := addRows ∅ rows

/-! ### What is registered -/

/-- Whether a path is registered. -/
def contains (c : Catalog) (path : String) : Bool := c.entries.contains path

/-- The definition of a path. -/
def get (c : Catalog) (path : String) : Except Failure Definition :=
  match c.entries.get? path with
  | some d => .ok d
  | none => .error (.fault (.notFound path))

/-- The registered paths, ascending. -/
def paths (c : Catalog) : List String := c.entries.keys

/-- The definitions in ascending order of their paths. -/
def definitions (c : Catalog) : List Definition := c.entries.values

/-- Whether the public path of an asset carries its digest: what the overrides say, else what its
definition says. -/
def isHashed (c : Catalog) (overrides : PathMap Bool) (path : String) : Except Failure Bool :=
  match overrides.get? path with
  | some b => .ok b
  | none => (c.get path).map (·.options.hashable)

/-! ### Bytes -/

/-- What a source gave: bytes or a fault, and the gate before which this is kept back. -/
structure Fetch where
  result : Except Fault Bytes
  gate : Option String

/-- Ask the source of an asset for its bytes. A loader is called at once. -/
def fetch (c : Catalog) (d : Definition) : Fetch × Catalog :=
  match d.source with
  | .static b => (⟨.ok (d.wrap b), none⟩, c)
  | .directory b => (⟨.ok (d.wrap b), none⟩, c)
  | .dynamic l _ =>
      let k := (c.calls.get? d.path).getD 0
      let result := match l.deliver k with
        | .ok b => .ok (d.wrap b)
        | .error f => .error (.unreadable d.path f.message)
      (⟨result, l.gate⟩, if l.isCounted then { c with calls := c.calls.insert d.path (k + 1) } else c)

/-- The bytes of the asset of a path. -/
def load (c : Catalog) (path : String) : Except Failure Bytes × Catalog :=
  match c.get path with
  | .error f => (.error f, c)
  | .ok d =>
      let (f, c) := c.fetch d
      (f.result.mapError .fault, c)

end Catalog

end HashedAssets
