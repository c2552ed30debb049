import HashedAssets.PathMap

/-!
# Work shared by key

Callers that ask for the same key while work for it is under way share that work and its outcome.

* `Call`: one piece of work with the number of callers that wait for it;
* `Table`: all calls ever begun, and the one in flight for each key;
* `attach`, `detach`, `finish`, `forget`: how a table changes.

The work itself is a parameter: `ω` is what is known of it while it is under way, `ρ` is what it gives.
-/

namespace HashedAssets.SingleFlight

universe u v

variable {ω : Type u} {ρ : Type v}

/-- How work, or waiting for it, ends. -/
inductive Outcome (ρ : Type v)
  | result (r : ρ)
  | cancelled
  deriving DecidableEq, Repr

/-- The state of work. -/
inductive Status (ω : Type u) (ρ : Type v)
  | running (work : ω)
  | finished (outcome : Outcome ρ)
  deriving DecidableEq, Repr

/-- Work for a key. -/
structure Call (ω : Type u) (ρ : Type v) where
  key : String
  status : Status ω ρ
  /-- How many callers wait for it. -/
  waiters : Nat
  /-- Whether it has been asked to stop. -/
  cancelled : Bool
  deriving Repr

/-- Whether work is under way. -/
def Call.isRunning (c : Call ω ρ) : Bool :=
  match c.status with
  | .running _ => true
  | .finished _ => false

/-- How work ended, if it has. -/
def Call.outcome? (c : Call ω ρ) : Option (Outcome ρ) :=
  match c.status with
  | .running _ => none
  | .finished o => some o

/-- A call by its number, in the order in which calls began. -/
abbrev CallId := Nat

/-- The calls begun so far, and the call in flight for each key. -/
structure Table (ω : Type u) (ρ : Type v) where
  slots : PathMap CallId
  calls : List (Call ω ρ)
  deriving Repr

namespace Table

/-- The table before any call. -/
def empty : Table ω ρ := ⟨∅, []⟩

instance : EmptyCollection (Table ω ρ) := ⟨empty⟩

instance : Inhabited (Table ω ρ) := ⟨empty⟩

/-- Whether a call for a key is in flight. -/
def inFlight (t : Table ω ρ) (key : String) : Bool := t.slots.contains key

/-- The keys in flight, ascending. -/
def keys (t : Table ω ρ) : List String := t.slots.keys

/-- The number of calls begun. -/
def started (t : Table ω ρ) : Nat := t.calls.length

/-- A call. -/
def call? (t : Table ω ρ) (n : CallId) : Option (Call ω ρ) := t.calls[n]?

/-- Change a call. -/
def modify (t : Table ω ρ) (n : CallId) (f : Call ω ρ → Call ω ρ) : Table ω ρ :=
  { t with calls := t.calls.modify n f }

/-- Empty the slot of a call, if the call is still in it. -/
def forget (t : Table ω ρ) (n : CallId) : Table ω ρ :=
  match t.call? n with
  -- a later call for the key may have taken the slot
  | some c => if t.slots.get? c.key = some n then { t with slots := t.slots.erase c.key } else t
  | none => t

/-- Wait for the call in flight for a key. If there is none, one begins with the given work. -/
def attach (t : Table ω ρ) (key : String) (work : ω) : CallId × Table ω ρ :=
  match t.slots.get? key with
  | some n => (n, t.modify n fun c => { c with waiters := c.waiters + 1 })
  | none =>
      let call : Call ω ρ := { key, status := .running work, waiters := 1, cancelled := false }
      (t.calls.length, ⟨t.slots.insert key t.calls.length, t.calls ++ [call]⟩)

/-- Stop waiting for a call. Work under way that nobody waits for any more loses its slot and is asked
to stop. -/
def detach (t : Table ω ρ) (n : CallId) : Table ω ρ :=
  let t := t.modify n fun c => { c with waiters := c.waiters - 1 }
  match t.call? n with
  | some c =>
      if c.waiters = 0 ∧ c.isRunning then
        (t.forget n).modify n fun c => { c with cancelled := true }
      else t
  | none => t

/-- Whether a call has been asked to stop. -/
def isCancelled (t : Table ω ρ) (n : CallId) : Bool :=
  ((t.call? n).map (·.cancelled)).getD false

/-- The work of a call goes on. -/
def progress (t : Table ω ρ) (n : CallId) (work : ω) : Table ω ρ :=
  t.modify n fun c => { c with status := .running work }

/-- The work of a call ends. The call stays in its slot until it is forgotten. -/
def finish (t : Table ω ρ) (n : CallId) (outcome : Outcome ρ) : Table ω ρ :=
  t.modify n fun c => { c with status := .finished outcome }

/-- The finished calls that are still in their slots. -/
def lingering (t : Table ω ρ) : List CallId :=
  t.slots.values.filter fun n => ((t.call? n).map fun c => !c.isRunning).getD false

end Table

/-! ### Callers -/

/-- A caller: it has not asked yet, waits for a call, or has its outcome. -/
inductive Caller (ρ : Type v)
  | fresh
  | waiting (call : CallId)
  | done (outcome : Outcome ρ)
  deriving DecidableEq, Repr

/-- The outcome of a caller, if it has one. -/
def Caller.outcome? : Caller ρ → Option (Outcome ρ)
  | .done o => some o
  | _ => none

/-- Whether a caller has its outcome. -/
def Caller.isDone (c : Caller ρ) : Bool := c.outcome?.isSome

/-- What a waiting caller gets, if it can go on: that it was cancelled, or else the outcome of its
call. -/
def Table.answer? (t : Table ω ρ) (cancelled : Bool) (n : CallId) : Option (Outcome ρ) :=
  if cancelled then some .cancelled else (t.call? n).bind (·.outcome?)

end HashedAssets.SingleFlight
