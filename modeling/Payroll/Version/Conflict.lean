import Payroll.Calendar.Date

/-!
Collisions between versions of a formula.
-/

namespace Payroll.Version

inductive Reason
  | fiscalYear
  | dateRange
  | unconditional
  | superseded
  deriving DecidableEq, Repr

def Reason.name : Reason → String
  | .fiscalYear => "FISCAL_YEAR"
  | .dateRange => "DATE_RANGE"
  | .unconditional => "DEFAULT"
  | .superseded => "SUPERSEDED"

/-- The row that stands in the way, with the scope it covers. -/
structure Conflict where
  id : String
  version : Int
  reason : Reason
  fiscalYear : Option Int
  validFrom : Option Date
  validTo : Option Date
  deriving DecidableEq, Repr

def Conflict.describe (c : Conflict) : String :=
  let row := s!"{c.id} (v{c.version})"
  match c.reason with
  | .fiscalYear =>
    let year := match c.fiscalYear with
      | some y => toString y
      | none => "None"
    s!"{row} already covers fiscal year {year}"
  | .dateRange =>
    let start := match c.validFrom with
      | some d => d.text
      | none => "None"
    let stop := match c.validTo with
      | some d => d.text
      | none => "open"
    s!"{row} is valid {start} -> {stop}"
  | .superseded => s!"{row} already replaced the requested row"
  | .unconditional => s!"{row} is already the default formula"

end Payroll.Version
