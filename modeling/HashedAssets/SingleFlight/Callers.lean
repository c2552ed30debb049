import HashedAssets.SingleFlight.Table

/-!
# Callers that share work

A table of calls together with its callers. Each caller asks for a key and waits for the outcome; work
goes on until the host answers it, or gives its result at once.

* `Callers`: callers, calls and a log of what the work did;
* `ask`, `cancel`, `answer`: what the host does;
* `Step`, `step`: what goes on by itself, one piece at a time;
* `settle`: all of it, until nothing can go on.
-/

namespace HashedAssets.SingleFlight

universe u

variable {ρ : Type u}

/-- What is known of work under way. -/
inductive Work (ρ : Type u)
  /-- It has not begun; the value is what it will give at once. -/
  | launched (instant : Option ρ)
  /-- It waits for the host's answer. -/
  | blocked
  /-- The host has answered. -/
  | answered (r : ρ)
  deriving DecidableEq, Repr

/-- What work did. -/
inductive Line
  | begun (key : String)
  | instant (key : String)
  | cancelled (key : String)
  deriving DecidableEq, Repr

/-- The text of a line of the log. -/
def Line.text : Line → String
  | .begun k => "start " ++ k
  | .instant k => "instant " ++ k
  | .cancelled k => "cancelled " ++ k

/-- A caller with the key it asks for, the value that work begun for it gives at once, and whether it
has been cancelled. -/
structure Participant (ρ : Type u) where
  key : String
  instant : Option ρ
  caller : Caller ρ
  cancelled : Bool
  deriving Repr

/-- Calls, callers in the order in which they came, and the log. -/
structure Callers (ρ : Type u) where
  table : Table (Work ρ) ρ
  participants : List (Participant ρ)
  log : List Line
  deriving Repr

namespace Callers

/-- The state without callers. -/
def empty : Callers ρ := ⟨∅, [], []⟩

instance : EmptyCollection (Callers ρ) := ⟨empty⟩

instance : Inhabited (Callers ρ) := ⟨empty⟩

/-! ### What the host does -/

/-- A new caller asks for a key. -/
def ask (s : Callers ρ) (key : String) (instant : Option ρ) : Nat × Callers ρ :=
  (s.participants.length,
    { s with participants := s.participants ++ [⟨key, instant, .fresh, false⟩] })

/-- Cancel a caller; the answer is whether it was still waiting. -/
def cancel (s : Callers ρ) (i : Nat) : Bool × Callers ρ :=
  match s.participants[i]? with
  | some p =>
      if p.caller.isDone then (false, s)
      else (true, { s with participants := s.participants.modify i fun p => { p with cancelled := true } })
  | none => (false, s)

/-- Answer the work that is blocked for a key; the first component says whether there is any. -/
def answer (s : Callers ρ) (key : String) (r : ρ) : Bool × Callers ρ :=
  match s.table.slots.get? key with
  | none => (false, s)
  | some n => match s.table.call? n with
    | none => (false, s)
    | some c => match c.status with
      | .running .blocked => (true, { s with table := s.table.progress n (.answered r) })
      | _ => (false, s)

/-- The outcome of a caller, if it has one. -/
def outcome? (s : Callers ρ) (i : Nat) : Option (Outcome ρ) :=
  (s.participants[i]?).bind (·.caller.outcome?)

/-! ### What goes on by itself -/

/-- One piece of what goes on. -/
inductive Step
  /-- A finished call leaves its slot. -/
  | forget (call : CallId)
  /-- A caller goes on. -/
  | caller (i : Nat)
  /-- The work of a call goes on. -/
  | work (call : CallId)
  deriving DecidableEq, Repr

/-- Whether a caller can go on. -/
def callerReady (s : Callers ρ) (p : Participant ρ) : Bool :=
  match p.caller with
  | .fresh => true
  | .waiting n => (s.table.answer? p.cancelled n).isSome
  | .done _ => false

/-- Whether the work of a call can go on. -/
def workReady (c : Call (Work ρ) ρ) : Bool :=
  match c.status with
  | .running .blocked => c.cancelled
  | .running _ => true
  | .finished _ => false

/-- All that can go on: first slots are emptied, then callers go on, then work. -/
def ready (s : Callers ρ) : List Step :=
  s.table.lingering.map .forget
    ++ ((s.participants.zipIdx.filter fun x => s.callerReady x.1).map fun x => .caller x.2)
    ++ ((s.table.calls.zipIdx.filter fun x => workReady x.1).map fun x => .work x.2)

/-- Change a caller. -/
def setCaller (s : Callers ρ) (i : Nat) (c : Caller ρ) : Callers ρ :=
  { s with participants := s.participants.modify i fun p => { p with caller := c } }

/-- A caller goes on: it asks for its key, or takes its outcome. -/
def runCaller (s : Callers ρ) (i : Nat) : Callers ρ :=
  match s.participants[i]? with
  | none => s
  | some p => match p.caller with
    | .fresh =>
        if p.cancelled then s.setCaller i (.done .cancelled)
        else
          let (n, table) := s.table.attach p.key (.launched p.instant)
          { s with table }.setCaller i (.waiting n)
    | .waiting n => match s.table.answer? p.cancelled n with
      | some o => { s with table := s.table.detach n }.setCaller i (.done o)
      | none => s
    | .done _ => s

/-- The work of a call goes on: it begins, ends with its value, or notices that it was asked to stop. -/
def runWork (s : Callers ρ) (n : CallId) : Callers ρ :=
  match s.table.call? n with
  | none => s
  | some c => match c.status with
    | .finished _ => s
    | .running w =>
        if c.cancelled then
          let log := match w with
            | .launched _ => s.log
            | _ => s.log ++ [.cancelled c.key]
          { s with table := s.table.finish n .cancelled, log }
        else match w with
          | .launched (some r) =>
              { s with table := s.table.finish n (.result r), log := s.log ++ [.instant c.key] }
          | .launched none =>
              { s with table := s.table.progress n .blocked, log := s.log ++ [.begun c.key] }
          | .blocked => s
          | .answered r => { s with table := s.table.finish n (.result r) }

/-- One piece of what goes on. -/
def step (s : Callers ρ) : Step → Callers ρ
  | .forget n => { s with table := s.table.forget n }
  | .caller i => s.runCaller i
  | .work n => s.runWork n

/-- At most `fuel` pieces of what goes on. -/
def settleWithin : Nat → Callers ρ → Callers ρ
  | 0, s => s
  | fuel + 1, s => match s.ready with
    | [] => s
    | x :: _ => settleWithin fuel (s.step x)

/-- Let everything go on until nothing can. A caller goes on twice at most and begins one call at most,
and a call goes on three times and is forgotten once. -/
def settle (s : Callers ρ) : Callers ρ :=
  settleWithin (6 * s.participants.length + 4 * s.table.calls.length + 1) s

end Callers

end HashedAssets.SingleFlight
