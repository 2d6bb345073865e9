import Payroll.Employee
import Payroll.Formula.Evaluate
import Payroll.Period
import Payroll.Service

/-!
The values of the variables for one employee in one period.
-/

namespace Payroll

open Decimal (ordinary)

/-- A thirtieth of the monthly salary, unless the daily salary is given. -/
def Employee.dailyPay (e : Employee) : Except Fault Decimal :=
  match e.dailySalary with
  | some d => .ok d
  | none => do roundHalfAway salaryPlaces (← ordinary.div e.baseSalary 30)

/-- The contribution base: the daily salary times the integration factor, unless it is given. -/
def Employee.integratedPay (e : Employee) (daily : Decimal) (values : FiscalValues)
    (vacationDays : Nat) : Except Fault Decimal :=
  match e.sbc with
  | some d => .ok d
  | none => do
    let factor ← Service.integrationFactor values vacationDays
    roundHalfAway salaryPlaces (← ordinary.mul daily factor)

namespace Formula

abbrev Bindings := Variable → Option Decimal

def hoursPerDay : Decimal := 8

/-- The values that follow from the employee, the period and the year. Seniority is measured at the
end of the period, so that a past period keeps its values. -/
def derived (e : Employee) (p : Period) (values : FiscalValues) : Except Fault Bindings := do
  let daily ← e.dailyPay
  let years := e.hireDate.yearsUntil p.stop
  let vacation := Service.vacationDays years
  let integrated ← e.integratedPay daily values vacation
  let hourly ← roundHalfAway salaryPlaces (← ordinary.div daily hoursPerDay)
  pure fun v =>
    match v with
    | .baseSalary => some e.baseSalary
    | .dailySalary => some daily
    | .hourlyRate => some hourly
    | .integratedSalary => some integrated
    | .workedDays | .periodDays => some (.ofInt p.days)
    | .absenceDays | .overtimeHours | .doubleOvertimeHours | .tripleOvertimeHours => some 0
    | .seniority => some (.ofInt years)
    | .seniorityDays => some (.ofInt (max 0 (e.hireDate.daysUntil p.stop)))
    | .vacationDays => some (.ofInt vacation)
    | .umaDaily => some values.umaDaily
    | .umaMonthly => some values.umaMonthly
    | .smgDaily => some values.smgDaily
    | .totalPerceptions | .taxableIncome | .totalDeductions => none
    | .custom1 | .custom2 | .custom3 | .custom4 | .custom5 => none

/-- Names that a set of overrides cannot use, because they are arguments of the derivation. -/
def reservedNames : List String := ["employee", "period", "fiscal_values"]

def unknownNames (names : List String) : List String :=
  sortNames (names.filter fun n => (Variable.ofName? n).isNone)

def overrideValue : Json → Except Fault (Option Decimal)
  | .null => .ok none
  | j => j.toDecimal.map some

/-- The bindings with overrides put over them; `null` takes a value away. -/
def overlay (values : Bindings) : Fields → Except Fault Bindings
  | [] => .ok values
  | (name, j) :: rest => do
    let d ← overrideValue j
    overlay (fun v => if v.name = name then d else values v) rest

/-- Days not worked are taken from the days of the period when only they are given. -/
def workedDays (p : Period) (overrides : Fields) (values : Bindings) :
    Except Fault (Option Decimal) :=
  match Fields.lookup overrides Variable.absenceDays.name,
      Fields.lookup overrides Variable.workedDays.name with
  | some _, none =>
    match values .absenceDays with
    | some absent => do pure (some (Decimal.max2 0 (← ordinary.sub (.ofInt p.days) absent)))
    | none => .error (.misuse .subtracting)
  | _, _ => .ok (values .workedDays)

def bindings (e : Employee) (p : Period) (values : FiscalValues) (overrides : Fields) :
    Except Fault Bindings := do
  match (Fields.names overrides).find? reservedNames.contains with
  | some name => throw (.misuse (.repeated name))
  | none => pure ()
  let base ← derived e p values
  let unknown := unknownNames (Fields.names overrides)
  unless unknown.isEmpty do throw (.unknownOverrides unknown)
  let all ← overlay base overrides
  let worked ← workedDays p overrides all
  pure fun v => if v = .workedDays then worked else all v

end Formula

end Payroll
