import HashedAssets.Resolver.Flight

/-!
# Running a resolver

* `Step`, `step`: one piece of what goes on by itself;
* `ready`: all pieces that can go on;
* `Settled`: the states in which there is none;
* `settle`: round after round, until nothing can go on.
-/

namespace HashedAssets.Resolver

open SingleFlight

/-- One piece of what goes on by itself. -/
inductive Step
  /-- A flight that has ended leaves its slot. -/
  | forget (flight : CallId)
  /-- A request goes on. -/
  | request (i : RequestId)
  /-- A flight goes on. -/
  | flight (n : CallId)
  deriving DecidableEq, Repr

/-- Whether a request can go on. -/
def requestReady (s : Resolver) (r : Request) : Bool :=
  match r.caller with
  | .fresh => true
  | .waiting n => (s.flights.answer? r.cancelled n).isSome
  | .done _ => false

/-- Whether a flight can go on. -/
def flightReady (s : Resolver) (c : Flight) : Bool :=
  match c.status with
  | .running .launched => true
  | .running (.loading fetched) => c.cancelled || s.isDelivered fetched
  | .running (.gathering _ _ _ children) => children.all fun i => (s.outcome? i).isSome
  | .finished _ => false

/-- All that can go on: first slots are emptied, then requests go on, then flights. -/
def ready (s : Resolver) : List Step :=
  s.flights.lingering.map .forget
    ++ ((s.requests.zipIdx.filter fun x => s.requestReady x.1).map fun x => .request x.2)
    ++ ((s.flights.calls.zipIdx.filter fun x => s.flightReady x.1).map fun x => .flight x.2)

/-- One piece of what goes on. -/
def step (s : Resolver) : Step → Resolver
  | .forget n => { s with flights := s.flights.forget n }
  | .request i => s.runRequest i
  | .flight n => s.runFlight n

/-- Nothing can go on by itself. -/
def Settled (s : Resolver) : Prop := s.ready = []

/-! ### Rounds

Everything that can go on goes on side by side, in rounds. Those who wait for an outcome learn of it one
round later than that it is there; nothing else takes time. -/

/-- How many rounds a piece has to be able to go on before it does. -/
def delay (s : Resolver) : Step → Nat
  | .forget _ => 1
  | .request i => match s.requests[i]? with
    | some ⟨_, .waiting _, false⟩ => 2
    | _ => 1
  | .flight n => match s.flights.call? n with
    | some ⟨_, .running (.gathering ..), _, _⟩ => 2
    | _ => 1

/-- For how many rounds each piece has been able to go on. -/
abbrev Ages := List (Step × Nat)

/-- One round more for all that can go on now. -/
def older (s : Resolver) (ages : Ages) : Ages :=
  s.ready.map fun x => (x, (ages.lookup x).getD 0 + 1)

/-- A round: all pieces go on that have been able to for long enough. -/
def round (s : Resolver) (ages : Ages) : Resolver × Ages :=
  let ages := s.older ages
  let due := ages.filter fun x => s.delay x.1 ≤ x.2
  (due.foldl (fun s x => s.step x.1) s, ages.filter fun x => x.2 < s.delay x.1)

/-- At most `fuel` rounds. -/
def settleWithin : Nat → Resolver → Ages → Resolver
  | 0, s, _ => s
  | fuel + 1, s, ages =>
      if s.ready.isEmpty then s
      else
        let (s, ages) := s.round ages
        settleWithin fuel s ages

/-- How many rounds there can be at most. Flights that wait for one another are for different paths, and
each waits for one request for each of its targets at most. -/
def patience (s : Resolver) : Nat :=
  let n := s.catalog.entries.size + 2
  16 * (s.requests.length + s.flights.started + 1) * Nat.pow n n

/-- Let everything go on until nothing can. -/
def settle (s : Resolver) : Resolver := settleWithin s.patience s []

end HashedAssets.Resolver
