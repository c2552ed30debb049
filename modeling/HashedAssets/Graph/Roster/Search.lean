import HashedAssets.Graph.Roster.Basic
import HashedAssets.Loop

/-!
# Searches in a roster

* `Sweep`, `closure`, `dependentsBy`: all that is reached, found with a stack;
* `Chase`, `cycleThrough?`: a shortest cycle through a node, found with a queue and with the node by
  which each node was found.
-/

namespace HashedAssets.Roster

/-- More steps than a search in the roster takes. -/
def patience (r : Roster) : Nat := 2 * (r.size + (r.entries.flatMap (·.2)).length) + 4

/-! ### All that is reached -/

/-- A search under way: what is found, and what of it is still to be looked at, the next one in front. -/
structure Sweep where
  seen : List String
  stack : List String

/-- Note a path that was found, unless it is known or barred. -/
def Sweep.note (barred : List String) (s : Sweep) (p : String) : Sweep :=
  if s.seen.contains p || barred.contains p then s else ⟨p :: s.seen, p :: s.stack⟩

/-- Look at the path in front of the stack. -/
def Sweep.step (next : String → List String) (barred : List String) (s : Sweep) :
    Sweep ⊕ List String :=
  match s.stack with
  | [] => .inr s.seen
  | p :: rest => .inl ((next p).foldl (note barred) ⟨s.seen, rest⟩)

/-- What a search comes to that begins with what is on the stack. -/
def sweep (r : Roster) (next : String → List String) (barred : List String) (s : Sweep) :
    List String :=
  ((Loop.run (Sweep.step next barred) r.patience s).getD [])

/-- A node and all that it needs, directly or not, ascending. -/
def closure (r : Roster) (p : String) : List String :=
  ascending (r.sweep r.targetsOf [] ⟨[p], [p]⟩)

/-- All that needs a node, directly or not, through edges that `keep` admits, ascending; the node
itself is left out. -/
def dependentsBy (r : Roster) (keep : EdgeKind → Bool) (p : String) : List String :=
  let sources := r.index fun es => Edge.targets (es.filter fun e => keep e.kind)
  ascending (r.sweep (fun q => (sources.get? q).getD []) [p] ⟨[], [p]⟩)

/-- All that needs a node, directly or not, ascending. -/
def dependents (r : Roster) (p : String) : List String := r.dependentsBy (fun _ => true) p

/-! ### A cycle through a node -/

/-- The search for a cycle through a node. -/
inductive Chase
  /-- Nodes are looked at in the order in which they were found; `parent` tells by which node. -/
  | out (queue : List String) (parent : PathMap String)
  /-- An edge back was found; from the node that it leaves the way leads back by the parents. `way`
  holds what lies between the node reached and that edge. -/
  | back (p : String) (way : List String) (parent : PathMap String)

/-- Look at the outgoing edges of a node, until one leads to the goal. -/
def Chase.look (goal p : String) : List Edge → List String → PathMap String → Chase
  | [], queue, parent => .out queue parent
  | e :: rest, queue, parent =>
      if e.target = goal then .back p [] parent
      else if parent.contains e.target then look goal p rest queue parent
      else look goal p rest (queue ++ [e.target]) (parent.insert e.target p)

/-- One step of the search. It fails at a node that has no parent. -/
def Chase.step (r : Roster) (goal : String) : Chase → Chase ⊕ Except String (Option (List String))
  | .out [] _ => .inr (.ok none)
  | .out (p :: queue) parent => .inl (look goal p (r.edgesOf p) queue parent)
  | .back p way parent =>
      if p = goal then .inr (.ok (some (p :: way)))
      else
        match parent.get? p with
        | some q => .inl (.back q (p :: way) parent)
        | none => .inr (.error p)

/-- A shortest cycle through a node, beginning with it. -/
def cycleThrough? (r : Roster) (p : String) : Option (List String) :=
  match Loop.run (Chase.step r p) r.patience (.out [p] ∅) with
  | some (.ok c?) => c?
  | _ => none

end HashedAssets.Roster
