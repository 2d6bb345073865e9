import Payroll.Event

/-!
Calculations called one after the other, each entry dated by a clock when it is made.
-/

namespace Payroll

/-- The order of two times that have one. -/
def Instant.Before (s t : Instant) : Prop :=
  s.offset.isNone = t.offset.isNone ∧ s.micros < t.micros

namespace Recording

/-- Entries dated by the readings of a clock from the `n`-th on. -/
def dated (clock : Nat → Instant) (n : Nat) : List Pending → List Pending
  | [] => []
  | p :: ps =>
    p.map (fun make id => { make id with calculatedAt := clock n }) :: dated clock (n + 1) ps

end Recording

namespace Engine

/-- The entries of a prepared calculation as they are dated by a clock. -/
def datedEntries (now : Instant) (clock : Nat → Instant) (p : Prepared) (e : Engine) :
    List Recording.Pending :=
  Recording.dated clock 1 (Recording.pending ⟨now, e.author⟩ p.setting p.versions p.calculation)

def recordBy (now : Instant) (clock : Nat → Instant) (p : Prepared) : Action (List String) := do
  let engine ← get
  let (trail, stored) := Recording.storeFrom p.calculation.id 1 engine.trail
    (datedEntries now clock p engine)
  set { engine with trail }
  stored

/-- A calculation whose snapshots are taken at `now`, and whose entries are dated by a clock. -/
def calculateBy (c : Configuration) (now : Instant) (clock : Nat → Instant) (id : String)
    (r : Request) : Action Recorded := do
  let p ← prepare c id r
  let entries ← recordBy now clock p
  let _ ← p.calculation.netPay
  pure ⟨p.calculation, entries⟩

structure Call where
  id : String
  now : Instant
  clock : Nat → Instant
  request : Request

def Call.run (x : Call) (c : Configuration) (e : Engine) : Except Fault Recorded × Engine :=
  (calculateBy c x.now x.clock x.id x.request).run.run e

end Engine

/-- The entries of a trail after those that an earlier one had. -/
def AuditTrail.since (earlier t : AuditTrail) : List AuditEntry :=
  (t.documents.drop earlier.documents.length).filterMap fun d =>
    (AuditEntry.load d.content).toOption

/-- A call that is over: what came of it, and the entries that it left. -/
structure FinishedCall where
  call : Engine.Call
  outcome : Except Fault Engine.Recorded
  entries : List AuditEntry

namespace FinishedCall

def detail (x : FinishedCall) : String := x.call.request.detailId

def period (x : FinishedCall) : String := x.call.request.period.id

def succeeded (x : FinishedCall) : Bool := x.outcome.toOption.isSome

def leavesEntries (x : FinishedCall) : Bool := !x.entries.isEmpty

/-- The entries of a period that count: of each detail those of the last call that counts. -/
def latest (counts : FinishedCall → Bool) (period : String) (calls : List FinishedCall) :
    List AuditEntry :=
  calls.foldl (fun kept x =>
    if counts x && x.period == period then
      kept.filter (fun e => e.detail != x.detail) ++ x.entries
    else kept) []

end FinishedCall

namespace Engine

/-- Calls one after the other, with what came of each. -/
def makeCalls (c : Configuration) : List Call → StateM Engine (List FinishedCall)
  | [] => pure []
  | x :: xs => do
    let earlier ← get
    let (outcome, later) := x.run c earlier
    set later
    let finished ← makeCalls c xs
    pure (⟨x, outcome, earlier.trail.since later.trail⟩ :: finished)

/-- The calls of a run: the `k`-th request has the id `<id>.<k>`, and a time and a clock of its own. -/
def callsFrom (now : Nat → Instant) (clock : Nat → Nat → Instant) (id : String) (k : Nat) :
    List Request → List Call
  | [] => []
  | r :: rs => ⟨s!"{id}.{k}", now k, clock k, r⟩ :: callsFrom now clock id (k + 1) rs

/-- A period for several employees, each calculated at a time and by a clock of its own. -/
def runPeriodBy (c : Configuration) (now : Nat → Instant) (clock : Nat → Nat → Instant)
    (id company : String) (period : Period) (employees : List (Employee × Json)) : Action Run := do
  let _ ← policy c company
  let _ ← tablesFor c period.year
  let requests := employees.map fun e =>
    ({ company, employee := e.1, period, overrides := e.2 } : Request)
  let calls ← makeCalls c (callsFrom now clock id 1 requests)
  let summary ← (← get).trail.summarize (.text period.id)
  let outcomes := calls.map fun x => (x.call.request.employee.id, x.outcome)
  pure {
    period := period.id
    calculations := outcomes.filterMap fun o => o.2.toOption
    failures := failuresOf outcomes
    summary }

end Engine

namespace Engine.Call

def after (x : Call) (i : Installation) : Installation :=
  { i with engine := (x.run i.config i.engine).2 }

def finish (x : Call) (i : Installation) : FinishedCall where
  call := x
  outcome := (x.run i.config i.engine).1
  entries := i.engine.trail.since (x.after i).engine.trail

/-- The id of a call is new, employee and period are records, and the clock is never behind what it
showed in an earlier call; its readings have a common order. -/
structure Admissible (x : Call) (e : Engine) (calls : List FinishedCall) : Prop where
  unused : Recording.Unused e.trail x.id 1
  employee : x.request.employee.Loaded
  period : x.request.period.Loaded
  comparable : ∀ m n, (x.clock m).offset.isNone = (x.clock n).offset.isNone
  later : ∀ y ∈ calls, ∀ m n, (y.call.clock m).Before (x.clock n)

end Engine.Call

namespace Installation

/-- The installations that calls lead to from one without any data, with the calls in their order.
Between them anything may happen that leaves the audit trail alone. -/
inductive Calls : Installation → List FinishedCall → Prop
  | start (root : String) (author : Option String) : Calls (below root author) []
  | event {i : Installation} {calls : List FinishedCall} (x : Event) :
      Calls i calls → x.Admissible i.engine → (x.after i).engine.trail = i.engine.trail →
        Calls (x.after i) calls
  | call {i : Installation} {calls : List FinishedCall} (x : Engine.Call) :
      Calls i calls → x.Admissible i.engine calls → Calls (x.after i) (calls ++ [x.finish i])

end Installation

end Payroll
