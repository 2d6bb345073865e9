import Payroll.Fiscal.Values
import Payroll.Rounding

/-!
Contributions of employer and employee to social security. Every branch has a pair of rates, which
apply to a daily base times the days of contribution.
-/

namespace Payroll

open Decimal (ordinary)

/-- What a rate applies to: the capped contribution base, the UMA, or what exceeds three UMA. -/
inductive ImssBase
  | sbc
  | uma
  | excess
  deriving DecidableEq, Repr

namespace ImssBase

def name : ImssBase → String
  | .sbc => "SBC"
  | .uma => "UMA"
  | .excess => "EXCESS_3UMA"

def all : List ImssBase := [.sbc, .uma, .excess]

theorem mem_all (b : ImssBase) : b ∈ all := by cases b <;> decide

def ofName? (s : String) : Option ImssBase := all.find? fun b => b.name == s

end ImssBase

structure ImssRate where
  concept : String
  employer : Decimal := 0
  employee : Decimal := 0
  base : ImssBase := .sbc
  deriving DecidableEq, Repr

namespace ImssRate

open Record in
def fieldReader : FieldReader ImssRate :=
  ImssRate.mk
    <$> required "concept" text
    <*> defaulted "employer_rate" 0 (atLeast 0 (atMost 1 decimal))
    <*> defaulted "employee_rate" 0 (atLeast 0 (atMost 1 decimal))
    <*> defaulted "base" .sbc (oneOf ImssBase.ofName?)

def read : Record.Reader ImssRate := Record.record "ImssRate" fieldReader Record.noRule

def load : Json → Except Fault ImssRate := Record.load "ImssRate" read

def toFields (r : ImssRate) : Fields := [
  ("concept", .text r.concept),
  ("employer_rate", .ofDecimal r.employer),
  ("employee_rate", .ofDecimal r.employee),
  ("base", .text r.base.name)]

def toJson (r : ImssRate) : Json := .object r.toFields

end ImssRate

structure ImssQuota where
  concept : String
  base : ImssBase
  dailyBase : Decimal
  days : Int
  employerRate : Decimal
  employeeRate : Decimal
  employerAmount : Decimal
  employeeAmount : Decimal
  deriving DecidableEq, Repr

/-- The risk class is kept as it was given. -/
structure ImssResult where
  sbc : Decimal
  capped : Decimal
  days : Int
  riskClass : Json
  quotas : List ImssQuota

namespace Imss

/-- The branch whose rate is that of the employer's risk class. -/
def riskConcept : String := "riesgo_trabajo"

/-- The branch that pays into the housing fund. -/
def housingConcept : String := "infonavit"

def excessThreshold : Decimal := 3

def dailyBase (values : FiscalValues) (capped : Decimal) : ImssBase → Except Fault Decimal
  | .sbc => .ok capped
  | .uma => .ok values.umaDaily
  | .excess => do
    let threshold ← ordinary.mul values.umaDaily excessThreshold
    pure (Decimal.max2 0 (← ordinary.sub capped threshold))

/-- A daily base times days times a rate, rounded. -/
def amount (policy : RoundingPolicy) (daily : Decimal) (days : Int) (rate : Decimal) :
    Except Fault Decimal := do
  let total ← ordinary.mul daily (.ofInt days)
  policy.apply (← ordinary.mul total rate)

def quota (policy : RoundingPolicy) (values : FiscalValues) (capped : Decimal) (days : Int)
    (rate : ImssRate) : Except Fault ImssQuota := do
  let daily ← dailyBase values capped rate.base
  let employer ← amount policy daily days rate.employer
  let employee ← amount policy daily days rate.employee
  pure ⟨rate.concept, rate.base, daily, days, rate.employer, rate.employee, employer, employee⟩

def lookUpRate (key : String) : List (String × Amount) → Option Amount
  | [] => none
  | r :: rs => if r.1 = key then some r.2 else lookUpRate key rs

def riskRate (rates : List (String × Amount)) : Json → Except Fault Decimal
  | .text key =>
    match lookUpRate key rates with
    | some a => a.toDecimal
    | none => .error (.noRiskRate (.text key))
  | .list items => .error (.misuse (.hashing (.list items)))
  | .object fields => .error (.misuse (.hashing (.object fields)))
  | j => .error (.noRiskRate j)

/-- Occupational risk is borne by the employer alone. -/
def riskQuota (policy : RoundingPolicy) (capped : Decimal) (days : Int)
    (rates : List (String × Amount)) (risk : Json) : Except Fault (List ImssQuota) :=
  if risk.truthy then do
    let rate ← riskRate rates risk
    let employer ← amount policy capped days rate
    let employee ← policy.apply 0
    pure [⟨riskConcept, .sbc, capped, days, rate, 0, employer, employee⟩]
  else .ok []

/-- An integer too long to be written cannot be reported. -/
def refuseDays (days : Int) : Fault :=
  if Record.maxIntegerText < digitCount days.natAbs then .integerLength else .negativeDays days

def calculate (policy : RoundingPolicy) (rates : List ImssRate) (values : FiscalValues)
    (riskRates : List (String × Amount)) (sbc : Amount) (days : Int) (risk : Json) :
    Except Fault ImssResult := do
  let sbc ← sbc.toDecimal
  if sbc.lt 0 then throw (.negativeSbc sbc)
  if days < 0 then throw (refuseDays days)
  let cap ← ordinary.mul values.umaDaily (.ofInt values.sbcCap)
  let capped := Decimal.min2 sbc cap
  let branches := rates.filter fun r => r.concept != riskConcept
  let quotas ← branches.mapM (quota policy values capped days)
  let risks ← riskQuota policy capped days riskRates risk
  pure ⟨sbc, capped, days, risk, quotas ++ risks⟩

end Imss

namespace ImssQuota

def toJson (q : ImssQuota) : Json :=
  .object [
    ("concept", .text q.concept),
    ("base_type", .text q.base.name),
    ("daily_base", .ofDecimal q.dailyBase),
    ("days", .int q.days),
    ("employer_rate", .ofDecimal q.employerRate),
    ("employee_rate", .ofDecimal q.employeeRate),
    ("employer_amount", .ofDecimal q.employerAmount),
    ("employee_amount", .ofDecimal q.employeeAmount)]

end ImssQuota

namespace ImssResult

def isHousing (q : ImssQuota) : Bool := q.concept == Imss.housingConcept

def employeeTotal (r : ImssResult) : Except Fault Decimal := do
  ordinary.sum (r.quotas.map (·.employeeAmount))

/-- What the employer pays, the housing fund apart. -/
def employerTotal (r : ImssResult) : Except Fault Decimal := do
  ordinary.sum ((r.quotas.filter fun q => !isHousing q).map (·.employerAmount))

def housing (r : ImssResult) : Except Fault Decimal := do
  ordinary.sum ((r.quotas.filter isHousing).map (·.employerAmount))

def quota? (r : ImssResult) (concept : String) : Option ImssQuota :=
  r.quotas.find? fun q => q.concept == concept

def toJson (r : ImssResult) : Except Fault Json := do
  let employee ← r.employeeTotal
  let employer ← r.employerTotal
  let housing ← r.housing
  pure (.object [
    ("sbc", .ofDecimal r.sbc),
    ("capped_sbc", .ofDecimal r.capped),
    ("days", .int r.days),
    ("risk_class", r.riskClass),
    ("concepts", .list (r.quotas.map ImssQuota.toJson)),
    ("employee_total", .ofDecimal employee),
    ("employer_total", .ofDecimal employer),
    ("infonavit", .ofDecimal housing)])

end ImssResult

end Payroll
