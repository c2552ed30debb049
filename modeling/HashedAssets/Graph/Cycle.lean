import HashedAssets.Failure
import HashedAssets.Graph.Reach

/-!
# Cycles

* `Graph.cycleThrough?`: a shortest cycle through a node, found level by level;
* `Graph.cycles`: one cycle for each edge that leads back in a depth-first walk, each once and
  beginning at its smallest path;
* `Graph.IsCycle`: what a cycle is.
-/

namespace HashedAssets.Graph

/-- Each path of the list is followed by one that it needs, and the last one needs `first`. -/
def Closes (g : Graph) (first : String) : List String → Prop
  | [] => False
  | [p] => g.Adjacent p first
  | p :: q :: rest => g.Adjacent p q ∧ Closes g first (q :: rest)

/-- A simple cycle: distinct paths, each needing the next, and the last needing the first. -/
def IsCycle (g : Graph) (c : List String) : Prop :=
  c.Nodup ∧ ∃ p rest, c = p :: rest ∧ g.Closes p c

/-! ### A cycle through a node -/

/-- The trails of a level made longer by one node each, and the nodes seen then. A trail has its last
node in front. -/
def lengthen (g : Graph) : List (List String) → List String → List (List String) × List String
  | [], seen => ([], seen)
  | trail :: rest, seen =>
      let fresh := unseen seen ((trail.take 1).flatMap g.targetsOf)
      let (longer, seen) := lengthen g rest (fresh ++ seen)
      (fresh.map (· :: trail) ++ longer, seen)

/-- Whether the last node of a trail needs `goal`. -/
def leadsTo (g : Graph) (goal : String) : List String → Bool
  | [] => false
  | p :: _ => (g.targetsOf p).contains goal

/-- Search `n` levels for a trail whose last node needs `goal`. -/
def cycleSearch (g : Graph) (goal : String) : Nat → List (List String) → List String →
    Option (List String)
  | 0, _, _ => none
  | n + 1, level, seen =>
      match level.find? (g.leadsTo goal) with
      | some trail => some trail.reverse
      | none =>
          let (longer, seen) := lengthen g level seen
          if longer.isEmpty then none else cycleSearch g goal n longer seen

/-- A shortest cycle through a node, beginning with it. -/
def cycleThrough? (g : Graph) (p : String) : Option (List String) :=
  cycleSearch g p (g.size + 1) [[p]] [p]

/-! ### All cycles of a depth-first walk -/

/-- The smallest path of a list. -/
def smallest (first : String) (rest : List String) : String :=
  rest.foldl (fun m p => if p < m then p else m) first

/-- A cycle turned so that it begins at its smallest path. -/
def fromSmallest (c : List String) : List String :=
  match c with
  | [] => []
  | p :: rest =>
      let m := smallest p rest
      c.dropWhile (· != m) ++ c.takeWhile (· != m)

/-- What a walk knows: the nodes it is through with, and the cycles found, the latest first. -/
structure Walk where
  finished : List String
  cycles : List (List String)

/-- Note a cycle, unless it was noted before. -/
def Walk.note (w : Walk) (c : List String) : Walk :=
  if w.cycles.contains c then w else { w with cycles := c :: w.cycles }

/-- Walk on from a node that is not finished; `trail` holds the nodes on the way to it, the last one
in front. The walk never goes deeper than there are nodes. -/
def visit (g : Graph) : Nat → List String → String → Walk → Walk
  | 0, _, _, w => w
  | n + 1, trail, p, w =>
      let trail := p :: trail
      let w := (g.targetsOf p).foldl (fun (w : Walk) q =>
        if trail.contains q then
          -- the trail from `q` to `p`, which leads back to `q`
          w.note (fromSmallest (q :: (trail.takeWhile (· != q)).reverse))
        else if w.finished.contains q || !g.hasNode q then w
        else visit g n trail q w) w
      { w with finished := p :: w.finished }

/-- The cycles found by a walk from each node in turn, in the order in which they are found. -/
def cycles (g : Graph) : List (List String) :=
  (g.nodes.foldl (fun (w : Walk) p =>
    if w.finished.contains p then w else visit g g.size [] p w) ⟨[], []⟩).cycles.reverse

/-- The faults of a graph: one for each cycle. -/
def faults (g : Graph) : List Fault := g.cycles.map .cycle

end HashedAssets.Graph
