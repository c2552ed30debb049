import HashedAssets.Resolver.Invalidate

/-!
# Requests and flights

How requests and flights go on, one piece at a time. A piece runs until its request or flight has to
wait for something else, and nothing else happens meanwhile.

* `ask`, `cancel`: what callers do;
* `runRequest`: a request looks for a kept result, joins a flight, or takes its answer;
* `runFlight`: a flight loads, gathers, resolves, and ends.
-/

namespace HashedAssets.Resolver

open SingleFlight

/-! ### Callers -/

/-- Make a request. -/
def ask (s : Resolver) (target : Target) : RequestId × Resolver :=
  (s.requests.length, { s with requests := s.requests ++ [⟨target, .fresh, false⟩] })

/-- Make requests one after the other. -/
def askAll (s : Resolver) (targets : List Target) : List RequestId × Resolver :=
  ((List.range targets.length).map (· + s.requests.length),
    { s with requests := s.requests ++ targets.map fun t => ⟨t, .fresh, false⟩ })

/-- How a request ended, if it has. -/
def outcome? (s : Resolver) (i : RequestId) : Option (Outcome Answer) :=
  (s.requests[i]?).bind (·.caller.outcome?)

/-- Cancel a request. The answer is whether it had not ended; nothing else happens to it then until it
goes on. -/
def cancel (s : Resolver) (i : RequestId) : Bool × Resolver :=
  match s.requests[i]? with
  | none => (false, s)
  | some r =>
      if r.caller.isDone then (false, s)
      else (true, { s with requests := s.requests.modify i fun r => { r with cancelled := true } })

/-! ### Requests -/

/-- Change how far a request has come. -/
def setCaller (s : Resolver) (i : RequestId) (c : Caller Answer) : Resolver :=
  { s with requests := s.requests.modify i fun r => { r with caller := c } }

/-- The kept result of a path that can be used, after the host was asked about what the path needs.
While a flight for the path is under way there is none. -/
def kept? (s : Resolver) (path : String) : Option Resolved × Resolver :=
  if !s.entries.contains path || s.flights.inFlight path then (none, s)
  else
    let s := if s.watch.isSome then s.dropStale path else s
    match s.entries.get? path with
    | some e => (if e.needsCheck then none else some e.resolved, s)
    | none => (none, s)

/-- The requests that a flight waits for. -/
def childrenOf (s : Resolver) (n : CallId) : List RequestId :=
  match s.flights.call? n with
  | none => []
  | some c => match c.status with
    | .running (.gathering _ _ _ children) => children
    | _ => []

/-- A request stops waiting for a flight. When nobody waits for the flight any more, the requests that
it waits for are cancelled with it. -/
def leave (s : Resolver) (n : CallId) : Resolver :=
  let s := { s with flights := s.flights.detach n }
  match s.flights.call? n with
  | some c =>
      if c.cancelled then (s.childrenOf n).foldl (fun s i => (s.cancel i).2) s else s
  | none => s

/-- The path that a flight is for. -/
def pathOf (s : Resolver) (n : CallId) : String := ((s.flights.call? n).map (·.key)).getD ""

/-- A waiting request takes its answer, if there is one. -/
def takeAnswer (s : Resolver) (i : RequestId) : Resolver :=
  match s.requests[i]? with
  | none => s
  | some r => match r.caller with
    | .waiting n => match s.flights.answer? r.cancelled n with
      | none => s
      | some .cancelled => (s.leave n).setCaller i (.done .cancelled)
      | some (.result a) =>
          (s.leave n).setCaller i (.done (.result (r.target.accept (s.pathOf n) a)))
    | _ => s

/-- A request asks for the asset of a logical path. A flight that has ended but is still in its slot
gives its answer at once. -/
def request (s : Resolver) (i : RequestId) (target : Target) (path : String) : Resolver :=
  match s.catalog.get path with
  | .error f => s.setCaller i (.done (.result (.error f)))
  | .ok _ =>
      match s.kept? path with
      | (some r, s) =>
          let s := { s with stats := { s.stats with hits := s.stats.hits + 1 } }
          (s.report path .cached "").setCaller i (.done (.result (target.accept path (.ok r))))
      | (none, s) =>
          -- joins what is in the slot, even if the source has changed since that flight began
          let (n, flights) := s.flights.attach path .launched
          let stats := { s.stats with misses := s.stats.misses + 1 }
          ({ s with stats, flights }.setCaller i (.waiting n)).takeAnswer i

/-- A request goes on. -/
def runRequest (s : Resolver) (i : RequestId) : Resolver :=
  match s.requests[i]? with
  | none => s
  | some r => match r.caller with
    | .fresh =>
        if r.cancelled then s.setCaller i (.done .cancelled)
        else match r.target with
          | .logical p => s.request i r.target p
          | .published q => match s.logicalFor? q with
            | some p => s.request i r.target p
            | none => s.setCaller i (.done (.result (.error (.fault (.notFound q)))))
    | .waiting _ => s.takeAnswer i
    | .done _ => s

/-! ### Flights -/

/-- A flight ends. -/
def finish (s : Resolver) (n : CallId) (o : Outcome Answer) : Resolver :=
  { s with flights := s.flights.finish n o }

/-- Take back what is known of an asset under way: its edges, and that it is to be dropped. -/
def takeBack (s : Resolver) (path : String) : Resolver :=
  { s with
    dropOnLanding := s.dropOnLanding.filter (· != path)
    graph := s.graph.setEdges path [] }

/-- A flight ends because it was asked to. -/
def abandon (s : Resolver) (n : CallId) (path : String) : Resolver :=
  (s.takeBack path).finish n .cancelled

/-- A flight fails. Only what lies in the assets is reported and taken back. -/
def fail (s : Resolver) (n : CallId) (path : String) (f : Failure) : Resolver :=
  let s := if f.isOfAsset then (s.takeBack path).report path .failed f.message else s
  s.finish n (.result (.error f))

/-- Keep a result in place of an earlier one. -/
def keep (s : Resolver) (path : String) (e : Entry) : Resolver :=
  let byPublic := match s.entries.get? path with
    | some old => s.byPublic.erase old.resolved.publicPath
    | none => s.byPublic
  { s with
    entries := s.entries.insert path e
    byPublic := byPublic.insert e.resolved.publicPath path }

/-- A flight ends with a result. If the source changed meanwhile the result is handed out, but not
kept. -/
def succeed (s : Resolver) (n : CallId) (path : String) (r : Resolved) : Resolver :=
  let s :=
    if s.dropOnLanding.contains path then
      { s with dropOnLanding := s.dropOnLanding.filter (· != path) }.drop path
    else s
  (s.report path .completed r.publicPath).finish n (.result (.ok r))

/-- Whether the dependencies have the digests that a kept result was made with. -/
def isUpToDate (kept : Resolved) (resolved : PathMap Resolved) : Bool :=
  kept.dependencyDigests.bindings.all fun x =>
    (resolved.get? x.1).map (·.digest) == some x.2

/-- A flight has the dependencies of its asset. A kept result that they do not change is used again,
else the asset is resolved. -/
def conclude (s : Resolver) (n : CallId) (path : String) (a : Prepared) (edges : List Edge)
    (kept : Option Resolved) (resolved : PathMap Resolved) : Resolver :=
  match kept.filter (isUpToDate · resolved) with
  | some r =>
      { s with entries := s.entries.modify path fun e => { e with needsCheck := false } }.succeed
        n path r
  | none => match s.context.resolve s.catalog a edges resolved with
    | .error f => s.fail n path f
    | .ok r =>
        let stats := { s.stats with resolutions := s.stats.resolutions + 1 }
        -- kept first: `succeed` drops it again if the source changed meanwhile
        ({ s with stats }.keep path ⟨a, r, false⟩).succeed n path r

/-- A flight asks for the targets of the edges of its asset. -/
def gather (s : Resolver) (n : CallId) (path : String) (a : Prepared) (edges : List Edge)
    (kept : Option Resolved) : Resolver :=
  match ascending (Edge.targets edges) with
  | [] => s.conclude n path a edges kept ∅
  | targets =>
      let (children, s) := s.askAll (targets.map .logical)
      { s with flights := s.flights.progress n (.gathering a edges kept children) }

/-- A flight has the answer of its source. -/
def loaded (s : Resolver) (n : CallId) (path : String) (result : Except Fault Bytes) : Resolver :=
  match result with
  | .error f => s.fail n path (.fault f)
  | .ok raw => match s.catalog.get path with
    | .error f => s.fail n path f
    | .ok d => match s.context.prepare s.catalog d raw with
      | .error f => s.fail n path f
      | .ok (a, edges) =>
          -- the search has to see these edges; if it finds a cycle, the failure takes them back
          let s := { s with graph := s.graph.setEdges path edges }
          match s.graph.cycleThrough? path with
          | some c => s.fail n path (.fault (.cycle c))
          | none => s.gather n path a edges none

/-- A flight asks its source, and goes on if it gets its answer at once. -/
def load (s : Resolver) (n : CallId) (path : String) : Resolver :=
  match s.catalog.get path with
  | .error f => s.fail n path f
  | .ok d =>
      let (fetched, catalog) := s.catalog.fetch d
      let s := { s with catalog }
      if s.isDelivered fetched then s.loaded n path fetched.result
      else { s with flights := s.flights.progress n (.loading fetched) }

/-- A flight begins: a kept result that is marked is checked, anything else is loaded. -/
def start (s : Resolver) (n : CallId) (path : String) : Resolver :=
  let s := s.report path .pending ""
  match s.entries.get? path with
  | some e =>
      if e.needsCheck then s.gather n path e.asset e.resolved.edges (some e.resolved)
      else s.load n path
  | none => s.load n path

/-- What a flight gets from the requests it waits for: all results, or the first of the requests that
has none. -/
def collect (s : Resolver) : List RequestId → Outcome (Except Failure (PathMap Resolved))
  | [] => .result (.ok ∅)
  | i :: rest => match s.outcome? i with
    | some (.result (.ok r)) => match s.collect rest with
      | .result (.ok m) => .result (.ok (m.insert r.path r))
      | o => o
    | some (.result (.error f)) => .result (.error f)
    | some .cancelled => .cancelled
    -- not reached: a flight goes on only when all its requests have ended
    | none => .cancelled

/-- A flight goes on. -/
def runFlight (s : Resolver) (n : CallId) : Resolver :=
  match s.flights.call? n with
  | none => s
  | some c => match c.status with
    | .finished _ => s
    -- stopped before its first step, it does nothing else: a path noted for dropping stays noted
    | .running .launched => if c.cancelled then s.finish n .cancelled else s.start n c.key
    | .running (.loading fetched) =>
        if c.cancelled then s.abandon n c.key
        else if s.isDelivered fetched then s.loaded n c.key fetched.result
        else s
    | .running (.gathering a edges kept children) =>
        -- a flight that is asked to stop also waits until its requests have ended
        if !(children.all fun i => (s.outcome? i).isSome) then s
        else if c.cancelled then s.abandon n c.key
        else match s.collect children with
          | .cancelled => s.abandon n c.key
          | .result (.error f) => s.fail n c.key f
          | .result (.ok resolved) => s.conclude n c.key a edges kept resolved

end HashedAssets.Resolver
