import Payroll.Command.Basic
import Payroll.Decimal.Fixed
import Payroll.Tax.Settlement
import Payroll.Text.Columns

/-!
Commands that compute the tax on a base, the contributions to social security and settlements from
the tables of a year.
-/

namespace Payroll.Command.Taxes

open Decimal (ordinary)
open Text (padLeft padRight)

def money (d : Decimal) : String := padLeft 14 (d.groupedText 2)

/-- A rate times one hundred, with two places. -/
def percent (rate : Decimal) : Action String := do
  let d ← expecting (do ordinary.mul rate 100 : Except Fault Decimal)
  pure (d.fixedText 2)

/-- The tables of a year; only a year without any is explained. -/
def tables (year : Int) : Action FiscalTables := do
  explaining (among [.noTables]) ((← config).loadTables year)

/-- The rounding of a company, or the standard one when no company is named. -/
def policyOf (c : Configuration) : Option String → Except Fault RoundingPolicy
  | none | some "" => .ok .standard
  | some id => c.roundingPolicy id

def yearOption : Arguments (Option Int) := option ["--year", "-y"] asInteger

/-- The given year, or the one in which the command runs. -/
def yearOr (o : Occasion) (year : Option Int) : Int := year.getD o.now.date.year

def companyOption : Arguments (Option String) := option ["--company"] asText

/-! The tax on a base -/

structure IsrLine where
  base : Real64
  period : PeriodKind
  year : Option Int
  noSubsidy : Bool
  company : Option String
  asJson : Bool

def isrArguments : Arguments IsrLine :=
  IsrLine.mk
    <$> word "BASE" asReal
    <*> defaultedOption ["--period-type", "-p"] .monthly (oneOf PeriodKind.all PeriodKind.name)
    <*> yearOption
    <*> flag ["--no-subsidy"]
    <*> companyOption
    <*> flag ["--json"]

def isrJson (r : NetIsrResult) : Json :=
  .object [
    ("base", .ofDecimal r.isr.base),
    ("table_used", .text r.isr.table),
    ("limite_inferior", .ofDecimal r.isr.lower),
    ("excedente", .ofDecimal r.isr.excess),
    ("tasa", .ofDecimal r.isr.rate),
    ("impuesto_marginal", .ofDecimal r.isr.marginal),
    ("cuota_fija", .ofDecimal r.isr.fixedFee),
    ("isr", .ofDecimal r.isr.isr),
    ("subsidio", .optional (.ofDecimal ·.subsidy) r.subsidy),
    ("subsidio_aplicado", .ofDecimal r.applied),
    ("isr_neto", .ofDecimal r.net)]

def isrLines (period : PeriodKind) (year : Int) (rate : String) (r : NetIsrResult) : List String :=
  let subsidy := match r.subsidy with
    | some s => ["  Subsidio al empleo   " ++ money s.subsidy]
    | none => []
  [s!"ISR {period.name} {year} ({r.isr.table}, row {r.isr.row + 1})",
    "  Base gravable        " ++ money r.isr.base,
    "  Limite inferior      " ++ money r.isr.lower,
    "  Excedente            " ++ money r.isr.excess,
    "  Tasa                 " ++ padLeft 13 rate ++ "%",
    "  Impuesto marginal    " ++ money r.isr.marginal,
    "  Cuota fija           " ++ money r.isr.fixedFee,
    "  ISR                  " ++ money r.isr.isr]
    ++ subsidy ++ ["  ISR a retener        " ++ money r.net]

def isr : Command :=
  taking "isr" "Compute ISR withholding for a taxable BASE." isrArguments fun o l => do
    if l.base.isNegative then refuseValue "BASE cannot be negative"
    let t ← tables (yearOr o l.year)
    let table ← expecting (t.isrTable l.period.name)
    let subsidies := if l.noSubsidy then none else t.subsidyTable l.period.name
    let p ← expecting (policyOf (← config) l.company)
    let r ← expecting (Isr.withSubsidy p table subsidies (realAmount l.base))
    if l.asJson then say (isrJson r).indented
    else do
      let rate ← percent r.isr.rate
      sayAll (isrLines l.period t.published.year rate r)

/-! Contributions -/

structure ImssLine where
  sbc : Real64
  days : Int
  year : Option Int
  risk : Option RiskClass
  company : Option String
  asJson : Bool

def imssArguments : Arguments ImssLine :=
  ImssLine.mk
    <$> word "SBC" asReal
    <*> defaultedOption ["--days", "-d"] 15 (suchThat (0 ≤ ·) asInteger)
    <*> yearOption
    <*> option ["--risk-class"] (oneOf RiskClass.all RiskClass.name)
    <*> companyOption
    <*> flag ["--json"]

structure ImssTotals where
  employee : Decimal
  employer : Decimal
  housing : Decimal

def ImssTotals.of (r : ImssResult) : Except Fault ImssTotals := do
  pure ⟨← r.employeeTotal, ← r.employerTotal, ← r.housing⟩

def quotaJson (q : ImssQuota) : Json :=
  .object [
    ("concept", .text q.concept),
    ("base", .text q.base.name),
    ("daily_base", .ofDecimal q.dailyBase),
    ("employer", .ofDecimal q.employerAmount),
    ("employee", .ofDecimal q.employeeAmount)]

def imssJson (r : ImssResult) (totals : ImssTotals) : Json :=
  .object [
    ("sbc", .ofDecimal r.sbc),
    ("capped_sbc", .ofDecimal r.capped),
    ("days", .int r.days),
    ("risk_class", r.riskClass),
    ("concepts", .list (r.quotas.map quotaJson)),
    ("employee_total", .ofDecimal totals.employee),
    ("employer_total", .ofDecimal totals.employer),
    ("infonavit", .ofDecimal totals.housing)]

def amountsLine (label : String) (employer employee : Decimal) : String :=
  "  " ++ padRight 22 label ++ " " ++ money employer ++ " " ++ money employee

def imssLines (year : Int) (r : ImssResult) (totals : ImssTotals) : List String :=
  let capped := if r.capped.lt r.sbc then [s!"  SBC capped at {r.capped}"] else []
  let housing := match r.quota? Imss.housingConcept with
    | some _ => ["  " ++ padRight 22 "INFONAVIT" ++ " " ++ money totals.housing]
    | none => []
  [s!"IMSS {year}: SBC {r.sbc} x {r.days} days"]
    ++ capped
    ++ ["  " ++ padRight 22 "Concept" ++ " " ++ padLeft 14 "Employer" ++ " "
      ++ padLeft 14 "Employee"]
    ++ r.quotas.map (fun q => amountsLine q.concept q.employerAmount q.employeeAmount)
    ++ [amountsLine "IMSS total" totals.employer totals.employee]
    ++ housing

def imss : Command :=
  taking "imss" "Compute IMSS quotas for a daily SBC." imssArguments fun o l => do
    if l.sbc.isNegative then refuseValue "SBC cannot be negative"
    let t ← tables (yearOr o l.year)
    let p ← expecting (policyOf (← config) l.company)
    let r ← explaining (among [.imssRate])
      (Imss.calculate p t.published.imss t.values t.riskRates (realAmount l.sbc) l.days
        (.optional (.text ·.name) l.risk))
    let totals ← expecting (ImssTotals.of r)
    if l.asJson then say (imssJson r totals).indented
    else sayAll (imssLines t.published.year r totals)

/-! Settlements -/

structure SettlementLine where
  baseSalary : Real64
  kind : SettlementKind
  hire : Date
  termination : Date
  dailySalary : Option Real64
  sbc : Option Real64
  pendingDays : Option Real64
  vacationDays : Option Real64
  deductions : Real64
  employee : String
  company : Option String
  asJson : Bool

def asNonnegative : String → Option Real64 := suchThat isNonnegative asReal

def settlementArguments : Arguments SettlementLine :=
  SettlementLine.mk
    <$> word "BASE_SALARY" asNonnegative
    <*> defaultedOption ["--type"] .finiquito (oneOf SettlementKind.all SettlementKind.name)
    <*> requiredOption ["--hire-date"] asDate
    <*> requiredOption ["--termination-date"] asDate
    <*> option ["--daily-salary"] asNonnegative
    <*> option ["--sbc"] asNonnegative
    <*> option ["--pending-days"] asNonnegative
    <*> option ["--vacation-days"] asNonnegative
    <*> defaultedOption ["--deductions"] (.finite 0) asNonnegative
    <*> defaultedOption ["--employee"] "EMPLOYEE" asText
    <*> companyOption
    <*> flag ["--json"]

def realJson (x : Real64) : Json := .text x.text

def employeeOf (l : SettlementLine) : Except Fault Employee :=
  Employee.load (.object [
    ("id", .text l.employee),
    ("base_salary", realJson l.baseSalary),
    ("daily_salary", .optional realJson l.dailySalary),
    ("sbc", .optional realJson l.sbc),
    ("hire_date", .text l.hire.text)])

def requestOf (l : SettlementLine) (employee : Employee) : SettlementRequest where
  kind := l.kind
  employee
  termination := l.termination
  pendingSalaryDays := l.pendingDays.map realAmount
  pendingVacationDays := l.vacationDays.map realAmount
  otherDeductions := realAmount l.deductions

def lineUnlessZero (d : Decimal) (line : String) : List String :=
  if d.isZero then [] else [line]

def earnedLines (s : Settlement) : List String :=
  [s!"  Pending salary ({s.pendingDays} days)   " ++ money s.pendingSalary,
    s!"  Aguinaldo ({s.aguinaldoDays} days)         " ++ money s.aguinaldo,
    s!"  Vacation ({s.vacationDays} days)          " ++ money s.vacation,
    "  Vacation premium               " ++ money s.premium]
    ++ lineUnlessZero s.indemnity90 ("  Indemnity 90 days              " ++ money s.indemnity90)
    ++ lineUnlessZero s.indemnity20 ("  Indemnity 20 days per year     " ++ money s.indemnity20)
    ++ lineUnlessZero s.seniority
      (s!"  Seniority premium ({s.seniorityDays} days) " ++ money s.seniority)

def taxLines (s : Settlement) (rate : String) : List String :=
  ["  Exempt separation              " ++ money s.separationExempt,
    "  ISR ordinary                   " ++ money s.ordinaryIsr.isr]
    ++ lineUnlessZero s.separationIsr
      (s!"  ISR separation ({rate}%)    " ++ money s.separationIsr)
    ++ lineUnlessZero s.deductions ("  Other deductions               " ++ money s.deductions)

def settlementLines (s : Settlement) (rate : String) (gross net : Decimal) : List String :=
  [s!"{s.kind.name} {s.employee}: {s.hire} to {s.termination} "
      ++ s!"({s.yearsOfService} years, {s.daysOfService} days)",
    s!"  Daily salary {s.dailySalary}, integrated {s.integratedSalary}",
    ""]
    ++ earnedLines s
    ++ ["  Gross total                    " ++ money gross, ""]
    ++ taxLines s rate
    ++ ["  Net total                      " ++ money net]

def settlement : Command :=
  taking "liquidation" "Compute a finiquito or liquidacion for a monthly BASE_SALARY."
    settlementArguments fun _ l => do
    let employee ← expecting (employeeOf l)
    let t ← tables l.termination.year
    let p ← explaining Fault.isValueFault (policyOf (← config) l.company)
    let s ← explaining Fault.isValueFault (Settlement.calculate p t (requestOf l employee))
    if l.asJson then say (← expecting s.toJson).indented
    else do
      let rate ← percent s.separationRate
      let gross ← expecting s.grossTotal
      let net ← expecting s.netTotal
      sayAll (settlementLines s rate gross net)

def all : List Command := [isr, imss, settlement]

end Payroll.Command.Taxes
