import Payroll.Period
import Payroll.Rounding

/-!
Entries of the audit trail: an amount with the base, the rule and the intermediate values it came
from, and snapshots of all that is needed to compute it again.
-/

namespace Payroll

/-- What an amount is: a tax, a subsidy, a contribution, or the value of a formula. -/
inductive AuditKind
  | isr
  | subsidy
  | imssEmployee
  | imssEmployer
  | housing
  | formula
  deriving DecidableEq, Repr, Inhabited

namespace AuditKind

def name : AuditKind → String
  | .isr => "ISR"
  | .subsidy => "ISR_SUBSIDIO"
  | .imssEmployee => "IMSS_EMPLOYEE"
  | .imssEmployer => "IMSS_EMPLOYER"
  | .housing => "INFONAVIT"
  | .formula => "FORMULA"

def all : List AuditKind := [.isr, .subsidy, .imssEmployee, .imssEmployer, .housing, .formula]

theorem mem_all (k : AuditKind) : k ∈ all := by cases k <;> decide

def ofName? (s : String) : Option AuditKind := all.find? fun k => k.name == s

end AuditKind

/-- The entries of one calculation of a payroll detail share their calculation. -/
structure AuditEntry where
  id : String
  detail : String
  calculation : Option String
  period : Option String
  kind : AuditKind
  concept : String
  inputs : Fields
  base : Decimal
  lower : Option Decimal
  excess : Option Decimal
  marginal : Option Decimal
  fixedFee : Option Decimal
  result : Decimal
  rule : String
  ruleVersion : String
  table : Option String
  fiscalYear : Int
  periodKind : PeriodKind
  calculatedAt : Instant
  calculatedBy : Option String
  inputSnapshot : Option Fields
  outputSnapshot : Option Fields
  rulesSnapshot : Option Fields
  snapshotHash : Option String

namespace AuditEntry

open Record in
def fieldReader : FieldReader AuditEntry :=
  AuditEntry.mk
    <$> required "id" text
    <*> required "payroll_detail_id" text
    <*> optional "calculation_id" text
    <*> optional "period_id" text
    <*> required "concept_type" (oneOf AuditKind.ofName?)
    <*> required "concept_code" text
    <*> defaulted "input_values" [] fields
    <*> required "calculation_base" decimal
    <*> optional "limit_inferior" decimal
    <*> optional "excedente" decimal
    <*> optional "impuesto_marginal" decimal
    <*> optional "cuota_fija" decimal
    <*> required "result_amount" decimal
    <*> required "rule_applied" text
    <*> required "rule_version" text
    <*> optional "table_used" text
    <*> required "fiscal_year" integer
    <*> required "period_type" (oneOf PeriodKind.ofName?)
    <*> required "calculated_at" instant
    <*> optional "calculated_by" text
    <*> optional "input_snapshot" fields
    <*> optional "output_snapshot" fields
    <*> optional "applied_rules_snapshot" fields
    <*> optional "snapshot_hash" text

def read : Record.Reader AuditEntry := Record.record "FiscalAuditEntry" fieldReader Record.noRule

def load : Json → Except Fault AuditEntry := Record.load "FiscalAuditEntry" read

def snapshotNames : List String := ["input_snapshot", "output_snapshot", "applied_rules_snapshot"]

def toFields (e : AuditEntry) : Fields := [
  ("id", .text e.id),
  ("payroll_detail_id", .text e.detail),
  ("calculation_id", .optional .text e.calculation),
  ("period_id", .optional .text e.period),
  ("concept_type", .text e.kind.name),
  ("concept_code", .text e.concept),
  ("input_values", .object e.inputs),
  ("calculation_base", .ofDecimal e.base),
  ("limit_inferior", .optional .ofDecimal e.lower),
  ("excedente", .optional .ofDecimal e.excess),
  ("impuesto_marginal", .optional .ofDecimal e.marginal),
  ("cuota_fija", .optional .ofDecimal e.fixedFee),
  ("result_amount", .ofDecimal e.result),
  ("rule_applied", .text e.rule),
  ("rule_version", .text e.ruleVersion),
  ("table_used", .optional .text e.table),
  ("fiscal_year", .int e.fiscalYear),
  ("period_type", .text e.periodKind.name),
  ("calculated_at", .text e.calculatedAt.text),
  ("calculated_by", .optional .text e.calculatedBy),
  ("input_snapshot", .optional .object e.inputSnapshot),
  ("output_snapshot", .optional .object e.outputSnapshot),
  ("applied_rules_snapshot", .optional .object e.rulesSnapshot),
  ("snapshot_hash", .optional .text e.snapshotHash)]

def toJson (e : AuditEntry) : Json := .object e.toFields

/-- The entry with each snapshot replaced by whether there is one. -/
def line (e : AuditEntry) : Json :=
  .object (e.toFields.map fun f =>
    if snapshotNames.contains f.1 then (f.1, .bool !f.2.isNull) else f)

/-- Everything that a snapshot hash vouches for. -/
def hashedContent (e : AuditEntry) : Json :=
  .object [
    ("concept_type", .text e.kind.name),
    ("result_amount", .ofDecimal e.result),
    ("input", .optional .object e.inputSnapshot),
    ("output", .optional .object e.outputSnapshot),
    ("applied_rules", .optional .object e.rulesSnapshot)]

end AuditEntry

end Payroll
