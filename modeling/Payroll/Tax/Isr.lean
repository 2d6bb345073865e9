import Payroll.Rounding
import Payroll.Tax.BracketTable

/-!
The tax on a base, the employment subsidy credited against it, and what is left to withhold.
-/

namespace Payroll

open Decimal (ordinary)

/-- The tax: a fixed fee and a marginal part on the excess over the lower limit of the row. -/
structure IsrResult where
  base : Decimal
  lower : Decimal
  upper : Option Decimal
  excess : Decimal
  rate : Decimal
  marginal : Decimal
  fixedFee : Decimal
  isr : Decimal
  table : String
  row : Nat
  deriving DecidableEq, Repr

structure SubsidyResult where
  base : Decimal
  lower : Decimal
  upper : Option Decimal
  subsidy : Decimal
  table : String
  row : Nat
  deriving DecidableEq, Repr

/-- Tax and subsidy, the part of the subsidy that is used up, and the tax left. -/
structure NetIsrResult where
  isr : IsrResult
  subsidy : Option SubsidyResult
  applied : Decimal
  net : Decimal
  deriving DecidableEq, Repr

namespace Isr

def calculate (policy : RoundingPolicy) (table : BracketTable IsrTerms) (base : Amount) :
    Except Fault IsrResult := do
  let m ← table.find base
  let terms := m.row.terms
  let excess ← m.excess
  let marginal ← ordinary.mul excess terms.rate
  let rounded ← policy.apply marginal
  let isr ← policy.apply (← ordinary.add terms.fixedFee marginal)
  pure {
    base := m.base
    lower := m.row.lower
    upper := m.row.upper
    excess
    rate := terms.rate
    marginal := rounded
    fixedFee := terms.fixedFee
    isr
    table := table.name
    row := m.index }

def subsidy (policy : RoundingPolicy) (table : BracketTable SubsidyTerms) (base : Amount) :
    Except Fault SubsidyResult := do
  let m ← table.find base
  let amount ← policy.apply m.row.terms.amount
  pure ⟨m.base, m.row.lower, m.row.upper, amount, table.name, m.index⟩

/-- What is left of the tax after the subsidy, and never less than zero. -/
def net (policy : RoundingPolicy) (isr subsidy : Amount) : Except Fault Decimal := do
  let left ← ordinary.sub (← isr.toDecimal) (← subsidy.toDecimal)
  policy.apply (Decimal.max2 0 left)

/-- Without a table there is no subsidy. -/
def withSubsidy (policy : RoundingPolicy) (table : BracketTable IsrTerms)
    (subsidies : Option (BracketTable SubsidyTerms)) (base : Amount) :
    Except Fault NetIsrResult := do
  let isr ← calculate policy table base
  let credit ← subsidies.mapM fun t => subsidy policy t base
  let amount := match credit with
    | some s => s.subsidy
    | none => 0
  let applied ← policy.apply (Decimal.min2 isr.isr amount)
  let left ← net policy isr.isr amount
  pure ⟨isr, credit, applied, left⟩

/-- A row whose fixed fee does not continue the row before it. -/
structure ProgressionIssue where
  row : Nat
  expected : Decimal
  fixedFee : Decimal
  deriving DecidableEq, Repr

def ProgressionIssue.difference (i : ProgressionIssue) : Except Fault Decimal := do
  ordinary.sub i.fixedFee i.expected

/-- The fee with which the row after `row` should start. -/
def continued (row next : IsrBracket) : Except Fault Decimal := do
  let width ← ordinary.sub next.lower row.lower
  ordinary.add row.terms.fixedFee (← ordinary.mul width row.terms.rate)

def progressionFrom (tolerance : Decimal) (i : Nat) :
    List IsrBracket → Except Fault (List ProgressionIssue)
  | row :: next :: rows => do
    let expected ← continued row next
    let gap ← ordinary.abs (← ordinary.sub next.terms.fixedFee expected)
    let broken := tolerance.lt gap || next.terms.rate.lt row.terms.rate
    let rest ← progressionFrom tolerance (i + 1) (next :: rows)
    pure (if broken then ⟨i + 1, expected, next.terms.fixedFee⟩ :: rest else rest)
  | _ => .ok []

/-- Fees of published tables are rounded to cents. -/
def usualTolerance : Decimal := 0.25

/-- The rows whose fee does not continue the row before, or whose rate is lower. -/
def progression (tolerance : Amount) (table : BracketTable IsrTerms) :
    Except Fault (List ProgressionIssue) := do
  progressionFrom (← tolerance.toDecimal) 0 table.rows

end Isr

namespace IsrResult

def toJson (r : IsrResult) : Json :=
  .object [
    ("base", .ofDecimal r.base),
    ("limit_inferior", .ofDecimal r.lower),
    ("limit_superior", .optional .ofDecimal r.upper),
    ("excedente", .ofDecimal r.excess),
    ("tasa", .ofDecimal r.rate),
    ("impuesto_marginal", .ofDecimal r.marginal),
    ("cuota_fija", .ofDecimal r.fixedFee),
    ("isr", .ofDecimal r.isr),
    ("table_used", .text r.table),
    ("row_index", .ofNat r.row)]

end IsrResult

namespace SubsidyResult

def toJson (r : SubsidyResult) : Json :=
  .object [
    ("base", .ofDecimal r.base),
    ("limit_inferior", .ofDecimal r.lower),
    ("limit_superior", .optional .ofDecimal r.upper),
    ("subsidy", .ofDecimal r.subsidy),
    ("table_used", .text r.table),
    ("row_index", .ofNat r.row)]

end SubsidyResult

namespace NetIsrResult

def toJson (r : NetIsrResult) : Json :=
  .object [
    ("isr", r.isr.toJson),
    ("subsidy", .optional SubsidyResult.toJson r.subsidy),
    ("subsidy_applied", .ofDecimal r.applied),
    ("net_isr", .ofDecimal r.net)]

end NetIsrResult

end Payroll
