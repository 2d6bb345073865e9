import Payroll.Fiscal.Values
import Payroll.Rounding

/-!
What follows from the length of service: vacation days, the years that count for exemptions, and
the factor by which a daily salary grows into the contribution base.
-/

namespace Payroll.Service

open Decimal (ordinary)

/-- Completed years with the vacation days they give, the longest service first. -/
def vacationTable : List (Int × Nat) :=
  [(30, 32), (25, 30), (20, 28), (15, 26), (10, 24), (6, 22), (5, 20), (4, 18), (3, 16), (2, 14),
   (1, 12)]

/-- The first year of service accrues the days that one completed year gives. -/
def vacationDays (years : Int) : Nat :=
  match vacationTable.find? fun row => decide (row.1 ≤ years) with
  | some row => row.2
  | none => 12

/-- A remainder of more than this many days counts as a year. -/
def halfYear : Nat := 182

def exemptYears (hire leave : Date) : Nat :=
  let years := hire.yearsUntil leave
  if (halfYear : Int) < (hire.addYears years).daysUntil leave then years + 1 else years

/-- `1 + aguinaldo days / 365 + vacation days × vacation premium / 365`. -/
def integrationFactor (values : FiscalValues) (vacationDays : Nat) : Except Fault Decimal := do
  let aguinaldo ← ordinary.div (.ofInt values.aguinaldoDays) 365
  let premium ← ordinary.mul (.ofInt vacationDays) values.vacationPremium
  let vacation ← ordinary.div premium 365
  let factor ← ordinary.add (← ordinary.add 1 aguinaldo) vacation
  roundHalfAway ratePlaces factor

end Payroll.Service
