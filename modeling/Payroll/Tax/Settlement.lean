import Payroll.Fiscal.TableSet
import Payroll.Formula.Bindings
import Payroll.Tax.Isr

/-!
The settlement when an employment ends: what was earned and is still due, the payments for the
separation, the exempt parts of both, and the tax.
-/

namespace Payroll

open Decimal (ordinary)

/-- Resignation, dismissal without cause, and dismissal for cause. -/
inductive SettlementKind
  | finiquito
  | liquidacion
  | rescision
  deriving DecidableEq, Repr

namespace SettlementKind

def name : SettlementKind → String
  | .finiquito => "FINIQUITO"
  | .liquidacion => "LIQUIDACION"
  | .rescision => "RESCISION"

def all : List SettlementKind := [.finiquito, .liquidacion, .rescision]

theorem mem_all (k : SettlementKind) : k ∈ all := by cases k <;> decide

def ofName? (s : String) : Option SettlementKind := all.find? fun k => k.name == s

def ofJson (j : Json) : Except Fault SettlementKind :=
  match j.text?.bind ofName? with
  | some k => .ok k
  | none => .error (.unknownSettlement j)

end SettlementKind

/-- What a settlement is asked for. Days that are not given follow from the dates. -/
structure SettlementRequest where
  kind : SettlementKind
  employee : Employee
  termination : Date
  pendingSalaryDays : Option Amount := none
  pendingVacationDays : Option Amount := none
  otherDeductions : Amount := .ofDecimal 0

structure Settlement where
  kind : SettlementKind
  employee : String
  hire : Date
  termination : Date
  daysOfService : Int
  yearsOfService : Nat
  exemptYears : Nat
  dailySalary : Decimal
  integratedSalary : Decimal
  workedThisYear : Int
  pendingDays : Decimal
  pendingSalary : Decimal
  aguinaldoDays : Decimal
  aguinaldo : Decimal
  vacationDays : Decimal
  vacation : Decimal
  premium : Decimal
  indemnity90 : Decimal
  indemnity20 : Decimal
  seniorityDays : Nat
  seniority : Decimal
  aguinaldoExempt : Decimal
  premiumExempt : Decimal
  separationExempt : Decimal
  ordinaryTaxable : Decimal
  separationTaxable : Decimal
  asOrdinary : Bool
  ordinaryIsr : IsrResult
  separationRate : Decimal
  separationIsr : Decimal
  deductions : Decimal
  deriving DecidableEq, Repr

namespace Settlement

def daysInYear : Decimal := 365

def indemnityDays : Decimal := 90

def indemnityDaysPerYear : Decimal := 20

def seniorityDaysPerYear : Nat := 12

/-- The seniority premium is paid for at most this many minimum salaries. -/
def seniorityCap : Decimal := 2

/-- Who resigns gets the seniority premium from this many years on. -/
def voluntaryYears : Nat := 15

def aguinaldoExemptUma : Decimal := 30

def premiumExemptUma : Decimal := 15

def separationExemptUma : Decimal := 90

/-- The part of an amount below a limit. -/
def exemptPart (amount limit : Decimal) : Decimal := Decimal.max2 0 (Decimal.min2 amount limit)

structure Earned where
  pendingDays : Decimal
  pendingSalary : Decimal
  aguinaldoDays : Decimal
  aguinaldo : Decimal
  vacationDays : Decimal
  vacation : Decimal
  premium : Decimal
  deductions : Decimal

/-- The later of the hire date and the first day of the year of termination. -/
def yearStart (hire termination : Date) : Date :=
  let first := Date.firstOfYear termination.year termination.valid.1
  if first.before hire then hire else first

def daysWorked (hire termination : Date) : Int :=
  (yearStart hire termination).daysUntil termination + 1

def earned (policy : RoundingPolicy) (values : FiscalValues) (daily : Decimal)
    (entitlement : Nat) (r : SettlementRequest) : Except Fault Earned := do
  let worked := daysWorked r.employee.hireDate r.termination
  let fraction ← ordinary.div (.ofInt worked) daysInYear
  let pendingDays ← match r.pendingSalaryDays with
    | none => pure (.ofInt r.termination.day)
    | some a => a.toDecimal
  let aguinaldoDays ← roundHalfAway dayPlaces
    (← ordinary.mul fraction (.ofInt values.aguinaldoDays))
  let vacationDays ← match r.pendingVacationDays with
    | none => do roundHalfAway dayPlaces (← ordinary.mul fraction (.ofInt entitlement))
    | some a => a.toDecimal
  let deductions ← r.otherDeductions.toDecimal
  if pendingDays.lt 0 || vacationDays.lt 0 || deductions.lt 0 then throw .negativeSettlement
  let pendingSalary ← policy.apply (← ordinary.mul daily pendingDays)
  let aguinaldo ← policy.apply (← ordinary.mul daily aguinaldoDays)
  let vacation ← policy.apply (← ordinary.mul daily vacationDays)
  let premium ← policy.apply (← ordinary.mul vacation values.vacationPremium)
  pure ⟨pendingDays, pendingSalary, aguinaldoDays, aguinaldo, vacationDays, vacation, premium,
    deductions⟩

structure Separation where
  indemnity90 : Decimal
  indemnity20 : Decimal
  seniorityDays : Nat
  seniority : Decimal

def separation (policy : RoundingPolicy) (values : FiscalValues) (daily integrated : Decimal)
    (years : Nat) (kind : SettlementKind) : Except Fault Separation := do
  let (indemnity90, indemnity20) ← if kind = .liquidacion then do
      let fixed ← policy.apply (← ordinary.mul integrated indemnityDays)
      let perYear ← ordinary.mul integrated indemnityDaysPerYear
      let byYears ← policy.apply (← ordinary.mul perYear (.ofInt years))
      pure (fixed, byYears)
    else pure (0, 0)
  if kind = .finiquito ∧ years < voluntaryYears then return ⟨indemnity90, indemnity20, 0, 0⟩
  let days := seniorityDaysPerYear * years
  let cap ← ordinary.mul values.smgDaily seniorityCap
  let seniority ← policy.apply (← ordinary.mul (Decimal.min2 daily cap) (.ofInt days))
  return ⟨indemnity90, indemnity20, days, seniority⟩

/-- The tax on the part of the separation payments that is not taxed as ordinary income: they bear
the effective rate of the last monthly salary. -/
def separationTax (policy : RoundingPolicy) (table : BracketTable IsrTerms)
    (taxable monthly : Decimal) (asOrdinary : Bool) : Except Fault (Decimal × Decimal) := do
  if Decimal.lt 0 taxable && !asOrdinary && Decimal.lt 0 monthly then do
    let onSalary ← Isr.calculate policy table monthly
    let rate ← roundHalfAway ratePlaces (← ordinary.div onSalary.isr monthly)
    let tax ← policy.apply (← ordinary.mul taxable rate)
    pure (rate, tax)
  else pure (0, 0)

def monthlyTable : String := PeriodKind.monthly.name

def calculate (policy : RoundingPolicy) (tables : FiscalTables) (r : SettlementRequest) :
    Except Fault Settlement := do
  let hire := r.employee.hireDate
  if r.termination.orEqual hire then throw (.terminationBeforeHire r.termination hire)
  let values := tables.values
  let daily ← r.employee.dailyPay
  let years := hire.yearsUntil r.termination
  let entitlement := Service.vacationDays years
  let integrated ← r.employee.integratedPay daily values entitlement
  let e ← earned policy values daily entitlement r
  let s ← separation policy values daily integrated years r.kind
  let uma := values.umaDaily
  let serviceYears := Service.exemptYears hire r.termination
  let aguinaldoExempt ← policy.apply
    (exemptPart e.aguinaldo (← ordinary.mul uma aguinaldoExemptUma))
  let premiumExempt ← policy.apply (exemptPart e.premium (← ordinary.mul uma premiumExemptUma))
  let total ← ordinary.add (← ordinary.add s.indemnity90 s.indemnity20) s.seniority
  let perYear ← ordinary.mul uma separationExemptUma
  let limit ← ordinary.mul perYear (.ofInt serviceYears)
  let separationExempt ← policy.apply (exemptPart total limit)
  let separationTaxable ← ordinary.sub total separationExempt
  let basic ← ordinary.add e.pendingSalary e.vacation
  let withAguinaldo ← ordinary.add basic (← ordinary.sub e.aguinaldo aguinaldoExempt)
  let withPremium ← ordinary.add withAguinaldo (← ordinary.sub e.premium premiumExempt)
  let table ← tables.isrTable monthlyTable
  let monthly := r.employee.baseSalary
  let asOrdinary := Decimal.lt 0 separationTaxable && separationTaxable.le monthly
  let ordinaryTaxable ← if asOrdinary then do ordinary.add withPremium separationTaxable
    else pure withPremium
  let ordinaryIsr ← Isr.calculate policy table ordinaryTaxable
  let (rate, tax) ← separationTax policy table separationTaxable monthly asOrdinary
  pure {
    kind := r.kind
    employee := r.employee.id
    hire
    termination := r.termination
    daysOfService := hire.daysUntil r.termination
    yearsOfService := years
    exemptYears := serviceYears
    dailySalary := daily
    integratedSalary := integrated
    workedThisYear := daysWorked hire r.termination
    pendingDays := e.pendingDays
    pendingSalary := e.pendingSalary
    aguinaldoDays := e.aguinaldoDays
    aguinaldo := e.aguinaldo
    vacationDays := e.vacationDays
    vacation := e.vacation
    premium := e.premium
    indemnity90 := s.indemnity90
    indemnity20 := s.indemnity20
    seniorityDays := s.seniorityDays
    seniority := s.seniority
    aguinaldoExempt
    premiumExempt
    separationExempt
    ordinaryTaxable := ← policy.apply ordinaryTaxable
    separationTaxable := ← policy.apply separationTaxable
    asOrdinary
    ordinaryIsr
    separationRate := rate
    separationIsr := tax
    deductions := ← policy.apply e.deductions }

def separationTotal (s : Settlement) : Except Fault Decimal := do
  ordinary.add (← ordinary.add s.indemnity90 s.indemnity20) s.seniority

def grossTotal (s : Settlement) : Except Fault Decimal := do
  let earned ← ordinary.add s.pendingSalary s.aguinaldo
  let earned ← ordinary.add earned s.vacation
  let earned ← ordinary.add earned s.premium
  ordinary.add earned (← s.separationTotal)

def isrTotal (s : Settlement) : Except Fault Decimal := do
  ordinary.add s.ordinaryIsr.isr s.separationIsr

def totalDeductions (s : Settlement) : Except Fault Decimal := do
  ordinary.add (← s.isrTotal) s.deductions

def netTotal (s : Settlement) : Except Fault Decimal := do
  ordinary.sub (← s.grossTotal) (← s.totalDeductions)

def toJson (s : Settlement) : Except Fault Json := do
  let separation ← s.separationTotal
  let gross ← s.grossTotal
  let isr ← s.isrTotal
  let deductions ← s.totalDeductions
  let net ← s.netTotal
  pure (.object [
    ("liquidation_type", .text s.kind.name),
    ("employee_id", .text s.employee),
    ("hire_date", .text s.hire.text),
    ("termination_date", .text s.termination.text),
    ("days_of_service", .int s.daysOfService),
    ("years_of_service", .ofNat s.yearsOfService),
    ("exempt_service_years", .ofNat s.exemptYears),
    ("daily_salary", .ofDecimal s.dailySalary),
    ("integrated_salary", .ofDecimal s.integratedSalary),
    ("worked_days_this_year", .int s.workedThisYear),
    ("pending_salary_days", .ofDecimal s.pendingDays),
    ("pending_salary", .ofDecimal s.pendingSalary),
    ("aguinaldo_days", .ofDecimal s.aguinaldoDays),
    ("proportional_aguinaldo", .ofDecimal s.aguinaldo),
    ("vacation_days", .ofDecimal s.vacationDays),
    ("proportional_vacation", .ofDecimal s.vacation),
    ("vacation_premium", .ofDecimal s.premium),
    ("indemnity_90_days", .ofDecimal s.indemnity90),
    ("indemnity_20_days", .ofDecimal s.indemnity20),
    ("seniority_premium_days", .ofNat s.seniorityDays),
    ("seniority_premium", .ofDecimal s.seniority),
    ("aguinaldo_exempt", .ofDecimal s.aguinaldoExempt),
    ("vacation_premium_exempt", .ofDecimal s.premiumExempt),
    ("separation_exempt", .ofDecimal s.separationExempt),
    ("ordinary_taxable", .ofDecimal s.ordinaryTaxable),
    ("separation_taxable", .ofDecimal s.separationTaxable),
    ("separation_as_ordinary", .bool s.asOrdinary),
    ("ordinary_isr", s.ordinaryIsr.toJson),
    ("separation_rate", .ofDecimal s.separationRate),
    ("separation_isr", .ofDecimal s.separationIsr),
    ("other_deductions", .ofDecimal s.deductions),
    ("separation_total", .ofDecimal separation),
    ("gross_total", .ofDecimal gross),
    ("isr_total", .ofDecimal isr),
    ("total_deductions", .ofDecimal deductions),
    ("net_total", .ofDecimal net)])

end Settlement

end Payroll
