/-!
# Dependency edges

An asset depends on another one whose final content it includes, or whose digest stands in a path
that it refers to.

* `EdgeKind`, `Edge`;
* `Edge.before`: the order of edges, by target and then by kind.
-/

namespace HashedAssets

/-- Why an asset depends on another. -/
inductive EdgeKind
  | include
  | reference
  deriving DecidableEq, Repr

/-- The word for a kind of edge. -/
def EdgeKind.word : EdgeKind → String
  | .include => "include"
  | .reference => "reference"

/-- `source` depends on `target`. -/
structure Edge where
  source : String
  target : String
  kind : EdgeKind
  deriving DecidableEq, Repr

/-- Whether an edge stands before another one in a list: its target is smaller, or its target is the
same and it alone is an include. -/
def Edge.before (a b : Edge) : Bool :=
  if a.target = b.target then a.kind == .include && b.kind == .reference
  else decide (a.target < b.target)

/-- Put an edge into a list of edges in order, behind those that are not after it. -/
def Edge.insertSorted (e : Edge) : List Edge → List Edge
  | [] => [e]
  | f :: rest => if e.before f then e :: f :: rest else f :: insertSorted e rest

/-- Add an edge to a list of edges in order, unless it is there. -/
def Edge.addTo (es : List Edge) (e : Edge) : List Edge :=
  if es.contains e then es else e.insertSorted es

/-- The targets of edges, ascending. -/
def Edge.targets (es : List Edge) : List String := es.map (·.target)

end HashedAssets
