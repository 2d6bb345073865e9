import Payroll.Recording
import Payroll.Version.Store

/-!
Payroll runs. The engine holds the stored formulas and the audit trail, and keeps the rounding of
companies and the tables of years once they were loaded.
-/

namespace Payroll

structure Engine where
  store : FormulaStore := {}
  trail : AuditTrail := {}
  policies : List (String × RoundingPolicy) := []
  tables : List (Int × FiscalTables) := []
  author : Option String := none

/-- An action on an engine. What it did before it failed stays done. -/
abbrev Engine.Action := ExceptT Fault (StateM Engine)

namespace Engine

def lookUp [BEq κ] (key : κ) (entries : List (κ × α)) : Option α :=
  (entries.find? fun e => e.1 == key).map (·.2)

def putEntry [BEq κ] (key : κ) (value : α) : List (κ × α) → List (κ × α)
  | [] => [(key, value)]
  | e :: es => if e.1 == key then (key, value) :: es else e :: putEntry key value es

/-- The rounding of a company, loaded on first use. -/
def policy (c : Configuration) (company : String) : Action RoundingPolicy := do
  match lookUp company (← get).policies with
  | some p => pure p
  | none =>
    let p ← c.roundingPolicy company
    modify fun e => { e with policies := putEntry company p e.policies }
    pure p

def holdsPolicy (e : Engine) (company : String) : Bool := (lookUp company e.policies).isSome

def setPolicy (company : String) (p : RoundingPolicy) (e : Engine) : Engine :=
  { e with policies := putEntry company p e.policies }

def invalidate (company : String) (e : Engine) : Engine :=
  { e with policies := e.policies.filter fun p => p.1 != company }

/-- The tables in effect for a year, loaded on first use. -/
def tablesFor (c : Configuration) (year : Int) : Action FiscalTables := do
  match lookUp year (← get).tables with
  | some t => pure t
  | none =>
    let t ← c.loadTables year
    modify fun e => { e with tables := putEntry year t e.tables }
    pure t

def versionsOn (store : FormulaStore) (company : String) (target : Date) :
    Except Fault (List FormulaVersion) := do
  let codes ← store.concepts (.text company)
  let found ← codes.mapM fun code => store.resolveOn (.text company) (.text code) target
  pure (found.filterMap fun r => r.map (·.row))

structure Request where
  company : String
  employee : Employee
  period : Period
  overrides : Json := .null
  detail : Option String := none

/-- The detail that is named, or the one of the employee in the period. -/
def Request.detailId (r : Request) : String :=
  match r.detail with
  | some d => if d = "" then s!"{r.period.id}-{r.employee.id}" else d
  | none => s!"{r.period.id}-{r.employee.id}"

/-- The date whose versions apply: that of payment, or the last of the period. -/
def Request.target (r : Request) : Date := r.period.payment.getD r.period.stop

/-- A calculation that is not yet recorded, with what it was made from. -/
structure Prepared where
  setting : Calculation.Setting
  versions : List FormulaVersion
  calculation : Calculation

def prepare (c : Configuration) (id : String) (r : Request) : Action Prepared := do
  let policy ← policy c r.company
  let tables ← tablesFor c r.period.year
  let overrides ← r.overrides.asFields
  let values ← Formula.bindings r.employee r.period tables.values overrides
  let versions ← versionsOn (← get).store r.company r.target
  let setting : Calculation.Setting :=
    ⟨r.company, r.employee, r.period, policy, tables, overrides⟩
  let calculation ← Calculation.compute c setting values r.detailId id versions
  pure ⟨setting, versions, calculation⟩

structure Recorded where
  calculation : Calculation
  entries : List String

def record (now : Instant) (p : Prepared) : Action (List String) := do
  let engine ← get
  let (trail, stored) := Recording.store engine.trail ⟨now, engine.author⟩ p.setting p.versions
    p.calculation
  set { engine with trail }
  stored

/-- Calculates an employee and records every amount, after all of them have been computed. -/
def calculate (c : Configuration) (now : Instant) (id : String) (r : Request) :
    Action Recorded := do
  let p ← prepare c id r
  let entries ← record now p
  let _ ← p.calculation.netPay
  pure ⟨p.calculation, entries⟩

structure Run where
  period : String
  calculations : List Recorded
  failures : List (String × String)
  summary : AuditTrail.PeriodSummary

/-- The calculation of one employee, which may fail without stopping the others. -/
def attempt (c : Configuration) (now : Instant) (id : String) (r : Request) :
    StateM Engine (Except Fault Recorded) := (calculate c now id r).run

/-- The calculation of employees one after the other; the `k`-th has the id `<id>.<k>`. -/
def attemptFrom (c : Configuration) (now : Instant) (id : String) (k : Nat) :
    List Request → StateM Engine (List (String × Except Fault Recorded))
  | [] => pure []
  | r :: rs => do
    let outcome ← attempt c now s!"{id}.{k}" r
    let outcomes ← attemptFrom c now id (k + 1) rs
    pure ((r.employee.id, outcome) :: outcomes)

def failuresOf (outcomes : List (String × Except Fault Recorded)) : List (String × String) :=
  outcomes.foldl (fun acc o =>
    match o.2 with
    | .ok _ => acc
    | .error f => putEntry o.1 f.message acc) []

/-- A period for several employees. The totals come from the audit trail. -/
def runPeriod (c : Configuration) (now : Instant) (id company : String) (period : Period)
    (employees : List (Employee × Json)) : Action Run := do
  let _ ← policy c company
  let _ ← tablesFor c period.year
  let requests := employees.map fun e =>
    ({ company, employee := e.1, period, overrides := e.2 } : Request)
  let outcomes ← attemptFrom c now id 1 requests
  let summary ← (← get).trail.summarize (.text period.id)
  pure {
    period := period.id
    calculations := outcomes.filterMap fun o => o.2.toOption
    failures := failuresOf outcomes
    summary }

def Recorded.toJson (r : Recorded) : Except Fault Json := r.calculation.toJson r.entries

def Run.toJson (r : Run) : Except Fault Json := do
  let calculations ← r.calculations.mapM Recorded.toJson
  pure (.object [
    ("period_id", .text r.period),
    ("calculations", .list calculations),
    ("failures", .object (r.failures.map fun f => (f.1, .text f.2))),
    ("summary", .object r.summary.toFields)])

end Engine

end Payroll
