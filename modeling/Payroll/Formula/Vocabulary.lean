import Payroll.Decimal.Text

/-!
The names a formula may use: the variables of an employee and a period, and the functions.
-/

namespace Payroll.Formula

inductive Variable
  | baseSalary
  | dailySalary
  | hourlyRate
  | integratedSalary
  | workedDays
  | periodDays
  | absenceDays
  | overtimeHours
  | doubleOvertimeHours
  | tripleOvertimeHours
  | seniority
  | seniorityDays
  | vacationDays
  | umaDaily
  | umaMonthly
  | smgDaily
  | totalPerceptions
  | taxableIncome
  | totalDeductions
  | custom1
  | custom2
  | custom3
  | custom4
  | custom5
  deriving DecidableEq, Repr

namespace Variable

def name : Variable → String
  | .baseSalary => "baseSalary"
  | .dailySalary => "dailySalary"
  | .hourlyRate => "hourlyRate"
  | .integratedSalary => "integratedSalary"
  | .workedDays => "workedDays"
  | .periodDays => "periodDays"
  | .absenceDays => "absenceDays"
  | .overtimeHours => "overtimeHours"
  | .doubleOvertimeHours => "doubleOvertimeHours"
  | .tripleOvertimeHours => "tripleOvertimeHours"
  | .seniority => "seniority"
  | .seniorityDays => "seniorityDays"
  | .vacationDays => "vacationDays"
  | .umaDaily => "umaDaily"
  | .umaMonthly => "umaMonthly"
  | .smgDaily => "smgDaily"
  | .totalPerceptions => "totalPerceptions"
  | .taxableIncome => "taxableIncome"
  | .totalDeductions => "totalDeductions"
  | .custom1 => "custom1"
  | .custom2 => "custom2"
  | .custom3 => "custom3"
  | .custom4 => "custom4"
  | .custom5 => "custom5"

def description : Variable → String
  | .baseSalary => "Monthly base salary"
  | .dailySalary => "Daily salary"
  | .hourlyRate => "Hourly rate (daily salary / 8)"
  | .integratedSalary => "Salario diario integrado (SBC)"
  | .workedDays => "Days worked in the period"
  | .periodDays => "Days in the period"
  | .absenceDays => "Unexcused absences in the period"
  | .overtimeHours => "Overtime hours"
  | .doubleOvertimeHours => "Overtime hours paid double"
  | .tripleOvertimeHours => "Overtime hours paid triple"
  | .seniority => "Completed years of service"
  | .seniorityDays => "Days of service"
  | .vacationDays => "Vacation days for current seniority"
  | .umaDaily => "UMA daily value"
  | .umaMonthly => "UMA monthly value"
  | .smgDaily => "Salario minimo general, daily"
  | .totalPerceptions => "Total perceptions in the period"
  | .taxableIncome => "Taxable income in the period"
  | .totalDeductions => "Total deductions in the period"
  | .custom1 => "Custom value 1"
  | .custom2 => "Custom value 2"
  | .custom3 => "Custom value 3"
  | .custom4 => "Custom value 4"
  | .custom5 => "Custom value 5"

def all : List Variable :=
  [.baseSalary, .dailySalary, .hourlyRate, .integratedSalary, .workedDays, .periodDays,
   .absenceDays, .overtimeHours, .doubleOvertimeHours, .tripleOvertimeHours, .seniority,
   .seniorityDays, .vacationDays, .umaDaily, .umaMonthly, .smgDaily, .totalPerceptions,
   .taxableIncome, .totalDeductions, .custom1, .custom2, .custom3, .custom4, .custom5]

theorem mem_all (v : Variable) : v ∈ all := by cases v <;> decide

def ofName? (s : String) : Option Variable := all.find? fun v => v.name == s

/-- The value of a variable when a formula is tried out. -/
def sample : Variable → Decimal
  | .baseSalary => 15000
  | .dailySalary => 500
  | .hourlyRate => 62.5
  | .integratedSalary => 520
  | .workedDays => 15
  | .periodDays => 15
  | .seniority => 2
  | .seniorityDays => 730
  | .vacationDays => 14
  | .umaDaily => 113.14
  | .umaMonthly => 3439.46
  | .smgDaily => 278.80
  | .totalPerceptions => 7500
  | .taxableIncome => 7000
  | .totalDeductions => 1500
  | _ => 0

end Variable

inductive Function
  | min
  | max
  | round
  | proportional
  | abs
  | floor
  | ceil
  deriving DecidableEq, Repr

namespace Function

def name : Function → String
  | .min => "min"
  | .max => "max"
  | .round => "round"
  | .proportional => "proportional"
  | .abs => "abs"
  | .floor => "floor"
  | .ceil => "ceil"

def help : Function → String
  | .min => "min(a, b, ...) - smallest argument"
  | .max => "max(a, b, ...) - largest argument"
  | .round => "round(value, precision=2) - company rounding method"
  | .proportional =>
    "proportional(amount, numerator, denominator) - amount * numerator / denominator"
  | .abs => "abs(x) - absolute value"
  | .floor => "floor(x) - round down to an integer"
  | .ceil => "ceil(x) - round up to an integer"

def all : List Function := [.min, .max, .round, .proportional, .abs, .floor, .ceil]

theorem mem_all (f : Function) : f ∈ all := by cases f <;> decide

def ofName? (s : String) : Option Function := all.find? fun f => f.name == s

def leastArguments : Function → Nat
  | .min | .max => 2
  | .proportional => 3
  | _ => 1

def mostArguments : Function → Option Nat
  | .min | .max => none
  | .proportional => some 3
  | .round => some 2
  | _ => some 1

def accepts (f : Function) (n : Nat) : Bool :=
  f.leastArguments ≤ n && match f.mostArguments with
    | some most => n ≤ most
    | none => true

def arityText (f : Function) : String :=
  match f.mostArguments with
  | none => s!"at least {f.leastArguments}"
  | some most =>
    if most = f.leastArguments then toString most else s!"{f.leastArguments} to {most}"

end Function

end Payroll.Formula
