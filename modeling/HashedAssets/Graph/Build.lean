import HashedAssets.Directive.Parser
import HashedAssets.Graph.Order

/-!
# The graph of a set of assets

* `Directive.edge?`: the edge that a directive stands for;
* `edgesFor`: the edges of one asset, and its faults;
* `Graph.build`: the graph of all assets, or every fault in it.
-/

namespace HashedAssets

/-- The path that a directive names, and why: nothing for a variable. -/
def Directive.wants? (d : Directive) : Option (String × EdgeKind) :=
  match d.kind with
  | .include => some (d.target, .include)
  | .path => some (d.target, .reference)
  | .variable => none

/-- What is known about paths when edges are derived. -/
structure Registered where
  isRegistered : String → Bool
  isHashed : String → Bool

/-- Whether a directive stands for an edge: its target is registered, and hashed if only its path is
wanted. A path without a digest does not depend on the asset. -/
def Registered.hasEdge (r : Registered) (target : String) (kind : EdgeKind) : Bool :=
  r.isRegistered target && (kind == .include || r.isHashed target)

/-- The edge of an asset that a directive stands for. -/
def Directive.edge? (r : Registered) (path : String) (d : Directive) : Option Edge :=
  match d.wants? with
  | some (target, kind) =>
      if r.hasEdge target kind then some ⟨path, target, kind⟩ else none
  | none => none

/-- The fault of a directive whose target is not registered. -/
def Directive.fault? (r : Registered) (path : String) (d : Directive) : Option Fault :=
  match d.wants? with
  | some (target, kind) =>
      if r.isRegistered target then none else some (.unknownTarget path target kind)
  | none => none

/-- The edges of an asset, in order and each once, and one fault for each directive whose target is
not registered. -/
def edgesFor (r : Registered) (path : String) (ds : List Directive) : List Edge × List Fault :=
  ((ds.filterMap (Directive.edge? r path)).foldl Edge.addTo [], ds.filterMap (Directive.fault? r path))

/-- The bytes of an asset before anything is put in, and whether directives are looked for. -/
structure RawAsset where
  content : Bytes
  isTemplate : Bool

/-- The directives of an asset; without a template there are none. -/
def RawAsset.directives (a : RawAsset) (path : String) : Except Fault (List Directive) :=
  if a.isTemplate then Directive.parse a.content path else .ok []

namespace Graph

/-- A graph under construction: the directives read so far, and the faults. -/
structure Draft where
  graph : Graph
  directives : PathMap (List Directive)
  faults : List Fault

/-- Add an asset to a draft. -/
def Draft.add (r : Registered) (d : Draft) (path : String) (a : RawAsset) : Draft :=
  let graph := d.graph.addNode path
  match a.directives path with
  -- an asset that cannot be read is a node without edges
  | .error f => { d with graph, faults := d.faults ++ [f] }
  | .ok ds =>
      let (edges, faults) := edgesFor r path ds
      { graph := edges.foldl addEdge graph
        directives := d.directives.insert path ds
        faults := d.faults ++ faults }

/-- The draft of a set of assets. -/
def draft (r : Registered) (assets : PathMap RawAsset) : Draft :=
  assets.bindings.foldl (fun d x => d.add r x.1 x.2) ⟨∅, ∅, []⟩

/-- The graph of a set of assets and the directives of each; or all their faults, those of smaller
paths first, and then the cycles. -/
def build (r : Registered) (assets : PathMap RawAsset) :
    Except (List Fault) (Graph × PathMap (List Directive)) :=
  let d := draft r assets
  match d.faults ++ d.graph.faults with
  | [] => .ok (d.graph, d.directives)
  | faults => .error faults

end Graph

end HashedAssets
