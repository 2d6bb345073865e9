import Payroll.Employee
import Payroll.Period
import Payroll.Tax.BracketTable
import Payroll.Tax.Imss

/-!
Everything that is published for a fiscal year.
-/

namespace Payroll

structure TableSet where
  year : Int
  values : FiscalValues
  isr : List (PeriodKind × List IsrBracket)
  subsidy : List (PeriodKind × List SubsidyBracket) := []
  imss : List ImssRate
  riskRates : List (RiskClass × Decimal) := []
  deriving DecidableEq, Repr

namespace TableSet

open Record in
def read : Record.Reader TableSet :=
  record "FiscalTableSet" (TableSet.mk
    <$> required "year" integer
    <*> required "fiscal_values" FiscalValues.read
    <*> required "isr" (mapOf (oneOf PeriodKind.ofName?) (listOf Bracket.read))
    <*> defaulted "subsidy" [] (mapOf (oneOf PeriodKind.ofName?) (listOf Bracket.read))
    <*> required "imss" (listOf ImssRate.read)
    <*> defaulted "risk_classes" [] (mapOf (oneOf RiskClass.ofName?) decimal)) noRule

def load : Json → Except Fault TableSet := Record.load "FiscalTableSet" read

def rowsJson {α : Type} [BracketTerms α] (tables : List (PeriodKind × List (Bracket α))) : Json :=
  .object (tables.map fun t => (t.1.name, .list (t.2.map Bracket.toJson)))

def ratesJson (s : TableSet) : Json := .list (s.imss.map ImssRate.toJson)

def riskJson (s : TableSet) : Json :=
  .object (s.riskRates.map fun r => (r.1.name, .ofDecimal r.2))

def toJson (s : TableSet) : Json :=
  .object [
    ("year", .int s.year),
    ("fiscal_values", s.values.toJson),
    ("isr", rowsJson s.isr),
    ("subsidy", rowsJson s.subsidy),
    ("imss", s.ratesJson),
    ("risk_classes", s.riskJson)]

def imssChecksum (s : TableSet) : String :=
  (Json.object [("rates", s.ratesJson), ("risk_classes", s.riskJson)]).checksum

end TableSet

/-- The tables of a year with all their bracket tables sound. -/
structure FiscalTables where
  published : TableSet
  isr : List (PeriodKind × BracketTable IsrTerms)
  subsidy : List (PeriodKind × BracketTable SubsidyTerms)

namespace FiscalTables

def tableName (kind : String) (period : PeriodKind) (year : Int) : String :=
  s!"{kind}_{period.name}_{year}"

def soundTables {α : Type} (kind : String) (year : Int) :
    List (PeriodKind × List (Bracket α)) → Except Fault (List (PeriodKind × BracketTable α))
  | [] => .ok []
  | t :: ts => do
    let table ← BracketTable.of? (tableName kind t.1 year) t.2
    let tables ← soundTables kind year ts
    pure ((t.1, table) :: tables)

def ofSet (s : TableSet) : Except Fault FiscalTables := do
  let isr ← soundTables "ISR" s.year s.isr
  let subsidy ← soundTables "SUBSIDIO" s.year s.subsidy
  pure ⟨s, isr, subsidy⟩

def tableFor {α : Type} (tables : List (PeriodKind × BracketTable α)) (period : String) :
    Option (BracketTable α) :=
  (tables.find? fun t => t.1.name == period).map (·.2)

def isrTable (t : FiscalTables) (period : String) : Except Fault (BracketTable IsrTerms) :=
  match tableFor t.isr period with
  | some table => .ok table
  | none => .error (.noIsrTable period t.published.year)

def subsidyTable (t : FiscalTables) (period : String) : Option (BracketTable SubsidyTerms) :=
  tableFor t.subsidy period

def values (t : FiscalTables) : FiscalValues := t.published.values

def riskRates (t : FiscalTables) : List (String × Amount) :=
  t.published.riskRates.map fun r => (r.1.name, r.2)

def report (t : FiscalTables) (period : String) : Except Fault Json := do
  let isr ← t.isrTable period
  pure (.object [
    ("year", .int t.published.year),
    ("fiscal_values", t.values.toJson),
    ("imss", t.published.ratesJson),
    ("risk_classes", t.published.riskJson),
    ("imss_checksum", .text t.published.imssChecksum),
    ("isr_checksum", .text isr.checksum),
    ("subsidy_checksum", .optional (fun s => .text s.checksum) (t.subsidyTable period))])

end FiscalTables

end Payroll
