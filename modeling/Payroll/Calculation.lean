import Payroll.Configuration
import Payroll.Formula.Bindings
import Payroll.Formula.Exemption
import Payroll.Tax.Isr
import Payroll.Version.Basic

/-!
The calculation of one employee in one period: the values of the concepts, the tax on their taxable
parts, and the contributions to social security.
-/

namespace Payroll

open Decimal (ordinary)
open Formula (Bindings Variable)

/-- The value of a concept by the version of its formula in effect. -/
structure ConceptAmount where
  version : FormulaVersion
  outcome : Formula.Outcome

structure SkippedConcept where
  concept : String
  reason : String
  deriving DecidableEq, Repr

structure Calculation where
  employee : String
  detail : String
  id : String
  perceptions : List ConceptAmount
  deductions : List ConceptAmount
  skipped : List SkippedConcept
  isr : NetIsrResult
  imss : ImssResult

namespace Calculation

/-- What the calculations of a period share for one employee. -/
structure Setting where
  company : String
  employee : Employee
  period : Period
  policy : RoundingPolicy
  tables : FiscalTables
  overrides : Fields

def exemptionRule (v : FormulaVersion) : Formula.ExemptionRule where
  taxable := v.taxable
  exempt := v.exempt
  limit := v.exemptLimit.map Amount.ofDecimal
  limitUnit := .optional (.text ·.name) v.limitUnit

/-- The concepts of one kind. One whose formula fails is skipped, and the others go on. -/
def evaluateConcepts (s : Setting) (values : Bindings) :
    List FormulaVersion → Except Fault (List ConceptAmount × List SkippedConcept)
  | [] => .ok ([], [])
  | v :: vs =>
    match Formula.evaluateWithExemption s.policy (.ofValues values) (exemptionRule v)
        (some s.tables.values) v.expression with
    | .ok outcome => do
      let (amounts, skipped) ← evaluateConcepts s values vs
      pure (⟨v, outcome⟩ :: amounts, skipped)
    | .error f =>
      if f.isFormulaFault then do
        let (amounts, skipped) ← evaluateConcepts s values vs
        pure (amounts, ⟨v.concept, f.message⟩ :: skipped)
      else .error f

def ofKind (kind : ConceptKind) (vs : List FormulaVersion) : List FormulaVersion :=
  vs.filter fun v => v.kind == kind

def totalValue (amounts : List ConceptAmount) : Except Fault Decimal := do
  ordinary.sum (amounts.map (·.outcome.value))

def totalTaxable (amounts : List ConceptAmount) : Except Fault Decimal := do
  ordinary.sum (amounts.map (·.outcome.taxable))

/-- A total that deductions can read under the name of a variable, unless that is overridden. -/
def provide (overrides : Fields) (v : Variable) (total : Except Fault Decimal)
    (values : Bindings) : Except Fault Bindings :=
  match Fields.lookup overrides v.name with
  | some _ => .ok values
  | none => do
    let d ← total
    pure fun w => if w = v then some d else values w

/-- The risk class of the employee, or else that of the company. -/
def riskClass (c : Configuration) (s : Setting) : Except Fault Json :=
  match s.employee.riskClass with
  | some r => .ok (.text r.name)
  | none => do pure ((Fields.lookup (← c.company s.company) "risk_class").getD .null)

/-- The days that contributions are paid for: the worked days as a whole number. -/
def contributionDays (values : Bindings) : Except Fault Int :=
  match values .workedDays with
  | some d => .ok (Decimal.roundToInteger d).truncate
  | none => .error (.noAttribute .null "to_integral_value")

def contributionBase (s : Setting) (values : Bindings) : Amount :=
  match s.employee.sbc, values .integratedSalary with
  | some d, _ | none, some d => .ofDecimal d
  | none, none => .given .null

/-- All amounts, from the versions in effect. -/
def compute (c : Configuration) (s : Setting) (values : Bindings) (detail id : String)
    (versions : List FormulaVersion) : Except Fault Calculation := do
  let (perceptions, skipped) ← evaluateConcepts s values (ofKind .perception versions)
  let values ← provide s.overrides .totalPerceptions (totalValue perceptions) values
  let values ← provide s.overrides .taxableIncome (totalTaxable perceptions) values
  let (deductions, skipped') ← evaluateConcepts s values (ofKind .deduction versions)
  let taxable ← totalTaxable perceptions
  let table ← s.tables.isrTable s.period.kind.name
  let isr ← Isr.withSubsidy s.policy table (s.tables.subsidyTable s.period.kind.name) taxable
  let risk ← riskClass c s
  let days ← contributionDays values
  let imss ← Imss.calculate s.policy s.tables.published.imss s.tables.values s.tables.riskRates
    (contributionBase s values) days risk
  pure {
    employee := s.employee.id
    detail
    id
    perceptions
    deductions
    skipped := skipped ++ skipped'
    isr
    imss }

def totalPerceptions (c : Calculation) : Except Fault Decimal := totalValue c.perceptions

def taxableIncome (c : Calculation) : Except Fault Decimal := totalTaxable c.perceptions

/-- The deductions, the tax, and what the employee contributes. -/
def totalDeductions (c : Calculation) : Except Fault Decimal := do
  let concepts ← totalValue c.deductions
  let withTax ← ordinary.add concepts c.isr.net
  ordinary.add withTax (← c.imss.employeeTotal)

def netPay (c : Calculation) : Except Fault Decimal := do
  let earned ← c.totalPerceptions
  let deducted ← c.totalDeductions
  ordinary.sub earned deducted

end Calculation

namespace ConceptAmount

def variablesJson (a : ConceptAmount) : Fields :=
  a.outcome.inputs.map fun v => (v.1.name, .optional .ofDecimal v.2)

def toJson (a : ConceptAmount) : Json :=
  .object [
    ("concept_code", .text a.version.concept),
    ("concept_type", .text a.version.kind.name),
    ("name", .text a.version.name),
    ("formula_id", .text a.version.id),
    ("formula_version", .int a.version.version),
    ("value", .ofDecimal a.outcome.value),
    ("taxable_amount", .ofDecimal a.outcome.taxable),
    ("exempt_amount", .ofDecimal a.outcome.exempt),
    ("variables", .object a.variablesJson)]

end ConceptAmount

def SkippedConcept.toJson (s : SkippedConcept) : Json :=
  .object [("concept_code", .text s.concept), ("reason", .text s.reason)]

def Calculation.toJson (c : Calculation) (entries : List String) : Except Fault Json := do
  let imss ← c.imss.toJson
  let perceptions ← c.totalPerceptions
  let taxable ← c.taxableIncome
  let deductions ← c.totalDeductions
  let net ← c.netPay
  pure (.object [
    ("employee_id", .text c.employee),
    ("payroll_detail_id", .text c.detail),
    ("calculation_id", .text c.id),
    ("perceptions", .list (c.perceptions.map ConceptAmount.toJson)),
    ("deductions", .list (c.deductions.map ConceptAmount.toJson)),
    ("skipped", .list (c.skipped.map SkippedConcept.toJson)),
    ("isr", c.isr.toJson),
    ("imss", imss),
    ("audit_entry_ids", .list (entries.map Json.text)),
    ("total_perceptions", .ofDecimal perceptions),
    ("taxable_income", .ofDecimal taxable),
    ("total_deductions", .ofDecimal deductions),
    ("net_pay", .ofDecimal net)])

end Payroll
