import Payroll.Audit.Entry
import Payroll.Digest
import Payroll.Employee
import Payroll.Fiscal.TableSet
import Payroll.Version.Basic

/-!
Snapshots of the inputs, the outcome and the rules of a calculation. The rules carry a checksum.
-/

namespace Payroll.Snapshot

/-- The inputs of a calculation as they were when it ran. -/
def input (capturedAt : Instant) (e : Employee) (p : Period) (values : FiscalValues)
    (calculation : Json) : Fields := [
  ("captured_at", .text capturedAt.isoText),
  ("employee", e.toJson),
  ("period", p.toJson),
  ("fiscal_parameters", values.toJson),
  ("calculation", calculation)]

def output (result breakdown : Json) : Fields :=
  [("calculation_breakdown", breakdown), ("final_result", result)]

def tableRules {α : Type} [BracketTerms α] (rule : String) (table : BracketTable α)
    (policy : RoundingPolicy) : Fields := [
  ("rule", .text rule),
  ("table", .object [
    ("name", .text table.name),
    ("checksum", .text table.checksum),
    ("rows", table.rowsJson)]),
  ("rounding", policy.toJson)]

def imssRules (rule : String) (tables : FiscalTables) (policy : RoundingPolicy) : Fields := [
  ("rule", .text rule),
  ("rates", tables.published.ratesJson),
  ("risk_classes", tables.published.riskJson),
  ("checksum", .text tables.published.imssChecksum),
  ("rounding", policy.toJson)]

def formulaRules (v : FormulaVersion) (policy : RoundingPolicy) : Fields := [
  ("rule", .text "FORMULA"),
  ("formula", .object [
    ("id", .text v.id),
    ("version", .int v.version),
    ("concept_code", .text v.concept),
    ("expression", .text v.expression),
    ("is_taxable", .bool v.taxable),
    ("is_exempt", .bool v.exempt),
    ("exempt_limit", .optional .ofDecimal v.exemptLimit),
    ("exempt_limit_type", .optional (.text ·.name) v.limitUnit)]),
  ("checksum", .text (Json.text v.expression).checksum),
  ("rounding", policy.toJson)]

end Payroll.Snapshot

namespace Payroll.AuditEntry

/-- The entry with its snapshots and the hash of them. -/
def withSnapshots (e : AuditEntry) (input output rules : Fields) : AuditEntry :=
  let full := { e with
    inputSnapshot := some input
    outputSnapshot := some output
    rulesSnapshot := some rules }
  { full with snapshotHash := some full.hashedContent.checksum }

end Payroll.AuditEntry
