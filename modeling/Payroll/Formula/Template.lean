import Payroll.Formula.Vocabulary
import Payroll.Version.Basic

/-!
Formulas of common concepts to start from.
-/

namespace Payroll.Formula

/-- The limit is kept as the data that a new formula takes. -/
structure Template where
  concept : String
  kind : ConceptKind := .perception
  name : String
  expression : String
  taxable : Bool
  limit : Option (Json × LimitUnit) := none
  satKey : String

namespace Template

def savings : String := "min(baseSalary * 0.13, umaMonthly * 1.3) * periodDays / 30"

def all : List Template := [
  { concept := "P001"
    name := "Sueldo"
    expression := "dailySalary * workedDays"
    taxable := true
    satKey := "001" },
  { concept := "P002"
    name := "Aguinaldo"
    expression := "dailySalary * 15"
    taxable := true
    limit := some (.int 30, .uma)
    satKey := "002" },
  { concept := "P003"
    name := "Prima vacacional"
    expression := "dailySalary * vacationDays * 0.25"
    taxable := true
    limit := some (.int 15, .uma)
    satKey := "021" },
  { concept := "P004"
    name := "Horas extra dobles"
    expression := "hourlyRate * 2 * doubleOvertimeHours"
    taxable := true
    limit := some (.int 5, .uma)
    satKey := "019" },
  { concept := "P005"
    name := "Vales de despensa"
    expression := "min(baseSalary * 0.10, umaMonthly * 0.40)"
    taxable := true
    limit := some (.text "0.40", .umaMonthly)
    satKey := "029" },
  { concept := "P006"
    name := "Fondo de ahorro (aportacion patronal)"
    expression := savings
    taxable := false
    satKey := "005" },
  { concept := "D003"
    kind := .deduction
    name := "Fondo de ahorro (aportacion empleado)"
    expression := savings
    taxable := false
    satKey := "004" },
  { concept := "D004"
    kind := .deduction
    name := "Faltas"
    expression := "dailySalary * absenceDays"
    taxable := false
    satKey := "020" }]

def find? (concept : String) : Option Template := all.find? fun t => t.concept == concept

def limitFields : Option (Json × LimitUnit) → Fields
  | some (amount, unit) =>
    [("exempt_limit", amount), ("exempt_limit_type", .text unit.name)]
  | none => []

def toFields (t : Template) : Fields :=
  [("concept_code", .text t.concept),
    ("concept_type", .text t.kind.name),
    ("name", .text t.name),
    ("expression", .text t.expression),
    ("is_taxable", .bool t.taxable)]
    ++ limitFields t.limit ++ [("sat_concept_key", .text t.satKey)]

def toJson (t : Template) : Json := .object t.toFields

end Template

end Payroll.Formula
