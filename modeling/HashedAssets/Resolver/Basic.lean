import HashedAssets.Decimal.Binary64
import HashedAssets.Decimal.Fixed
import HashedAssets.Resolution.Basic
import HashedAssets.SingleFlight.Table

/-!
# Resolving assets on demand

A resolver loads and resolves an asset when it is asked for, and keeps the result. Requests for one
path share one flight, and a flight asks for the dependencies of its asset by requests of its own.

* `Entry`: a kept result;
* `Stats`, `Watch`: what is counted, and what the host answers about outdated results;
* `Phase`, `Flight`, `Request`: work under way, and those who wait for it;
* `Resolver`: the state of all this.
-/

namespace HashedAssets

open SingleFlight

/-! ### Kept results -/

/-- A resolved asset that is kept, with what is needed to resolve it again. -/
structure Entry where
  asset : Prepared
  resolved : Resolved
  /-- Whether a dependency may have changed since. -/
  needsCheck : Bool

/-- How an asset stands with a resolver. -/
inductive AssetState
  | unresolved
  | resolving
  | resolved
  deriving DecidableEq, Repr

/-- The word for a state. -/
def AssetState.word : AssetState → String
  | .unresolved => "unresolved"
  | .resolving => "resolving"
  | .resolved => "resolved"

/-! ### Counting -/

/-- What a resolver counts. -/
structure Stats where
  hits : Nat := 0
  misses : Nat := 0
  resolutions : Nat := 0
  invalidations : Nat := 0
  deriving DecidableEq, Repr

/-- The share of hits among all requests, to six places: the quotient is rounded to a binary number
first. -/
def Stats.hitRate (s : Stats) : String :=
  let total := s.hits + s.misses
  if total = 0 then Decimal.places 6 0 1
  else match (Binary64.ofRatio false s.hits total).ratio? with
    | some (n, d) => Decimal.places 6 n d
    | none => Decimal.places 6 0 1

/-! ### Outdated results -/

/-- What the host answers when it is asked whether a kept result is outdated: a function of how often
it was asked about the path before, of the path, and of what is kept. -/
structure Watch where
  isStale : Nat → String → Entry → Bool
  asked : PathMap Nat

/-- A host for which no result is outdated. -/
def Watch.quiet : Watch := ⟨fun _ _ _ => false, ∅⟩

/-- Ask the host about a kept result. -/
def Watch.ask (w : Watch) (path : String) (e : Entry) : Bool × Watch :=
  let k := (w.asked.get? path).getD 0
  (w.isStale k path e, { w with asked := w.asked.insert path (k + 1) })

/-! ### Flights and requests -/

/-- What a request ends with. -/
abbrev Answer := Except Failure Resolved

/-- A request by its number, in the order in which requests were made. -/
abbrev RequestId := Nat

/-- How far a flight has come. -/
inductive Phase
  /-- It has not begun. -/
  | launched
  /-- The source has been asked and keeps its bytes back. -/
  | loading (fetched : Catalog.Fetch)
  /-- It waits for requests for the targets of its edges, in ascending order of these. A flight that
  checks a kept result holds it. -/
  | gathering (asset : Prepared) (edges : List Edge) (kept : Option Resolved)
      (children : List RequestId)

/-- The resolution of one asset. -/
abbrev Flight := Call Phase Answer

/-- What is asked for. -/
inductive Target
  | logical (path : String)
  | published (publicPath : String)
  deriving DecidableEq, Repr

/-- The answer to a request, from the answer for the asset of a path: a public path that is not the
asset's own any more stands for nothing. -/
def Target.accept (t : Target) (path : String) (a : Answer) : Answer :=
  match t, a with
  | .published q, .ok r =>
      if path = q ∨ r.publicPath = q then .ok r else .error (.fault (.notFound q))
  | _, a => a

/-- A request, and whether it has been cancelled. -/
structure Request where
  target : Target
  caller : Caller Answer
  cancelled : Bool

/-! ### The state of a resolver -/

/-- A resolver: what it works with, what it keeps, and what is under way. -/
structure Resolver where
  context : Context
  catalog : Catalog
  /-- The gates that are open. -/
  openGates : List String
  watch : Option Watch
  entries : PathMap Entry
  /-- The logical path of each public path in use. -/
  byPublic : PathMap String
  /-- The edges of assets that are kept or under way. -/
  graph : Graph
  /-- The paths whose result is dropped as soon as their flight ends with one. -/
  dropOnLanding : List String
  stats : Stats
  flights : Table Phase Answer
  requests : List Request
  /-- What was reported, in order. -/
  events : List Event
  /-- The paths that the host was asked about, in order. -/
  checked : List String

namespace Resolver

/-- The resolver of a catalog, before any request. -/
def make (x : Context) (c : Catalog) (watch : Option Watch) : Resolver :=
  { context := x, catalog := c, openGates := [], watch, entries := ∅, byPublic := ∅, graph := ∅
    dropOnLanding := [], stats := {}, flights := ∅, requests := [], events := [], checked := [] }

/-- How the asset of a path stands. -/
def state (s : Resolver) (path : String) : AssetState :=
  if s.flights.inFlight path then .resolving
  else if s.entries.contains path then .resolved
  else .unresolved

/-- The kept result of a path, checked or not. -/
def cached (s : Resolver) (path : String) : Option Resolved :=
  (s.entries.get? path).map (·.resolved)

/-- The logical path that a public path stands for: a registered path for itself. -/
def logicalFor? (s : Resolver) (publicPath : String) : Option String :=
  if s.catalog.contains publicPath then some publicPath else s.byPublic.get? publicPath

/-- Report on an asset. -/
def report (s : Resolver) (path : String) (status : Status) (message : String) : Resolver :=
  { s with events := s.events ++ [⟨path, status, message⟩] }

/-- Open a gate. -/
def openGate (s : Resolver) (gate : String) : Resolver :=
  { s with openGates := insertAscending gate s.openGates }

/-- Close a gate. -/
def closeGate (s : Resolver) (gate : String) : Resolver :=
  { s with openGates := s.openGates.filter (· != gate) }

/-- Whether a source that was asked gives its bytes now. -/
def isDelivered (s : Resolver) (fetched : Catalog.Fetch) : Bool :=
  match fetched.gate with
  | none => true
  | some g => s.openGates.contains g

end Resolver

end HashedAssets
