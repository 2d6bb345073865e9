import Payroll.Record.Reader

/-!
The reference values published for a fiscal year.
-/

namespace Payroll

/-- Daily, monthly and yearly UMA, the minimum salaries, and what the law sets in days and rates.
The cap of the contribution base counts UMA. -/
structure FiscalValues where
  year : Int
  umaDaily : Decimal
  umaMonthly : Decimal
  umaYearly : Decimal
  smgDaily : Decimal
  smgBorderDaily : Option Decimal
  aguinaldoDays : Int
  vacationPremium : Decimal
  sbcCap : Int
  deriving DecidableEq, Repr

namespace FiscalValues

def toFields (v : FiscalValues) : Fields := [
  ("year", .int v.year),
  ("uma_daily", .ofDecimal v.umaDaily),
  ("uma_monthly", .ofDecimal v.umaMonthly),
  ("uma_yearly", .ofDecimal v.umaYearly),
  ("smg_daily", .ofDecimal v.smgDaily),
  ("smg_zfn_daily", .optional .ofDecimal v.smgBorderDaily),
  ("aguinaldo_days", .int v.aguinaldoDays),
  ("vacation_premium_percent", .ofDecimal v.vacationPremium),
  ("sbc_cap_uma", .int v.sbcCap)]

def toJson (v : FiscalValues) : Json := .object v.toFields

open Record in
def fieldReader : FieldReader FiscalValues :=
  FiscalValues.mk
    <$> required "year" integer
    <*> required "uma_daily" (above 0 decimal)
    <*> required "uma_monthly" (above 0 decimal)
    <*> required "uma_yearly" (above 0 decimal)
    <*> required "smg_daily" (above 0 decimal)
    <*> optional "smg_zfn_daily" (above 0 decimal)
    <*> defaulted "aguinaldo_days" 15 (integerAtLeast 15 integer)
    <*> defaulted "vacation_premium_percent" 0.25
      (atLeast 0.25 (atMost 1 decimal))
    <*> defaulted "sbc_cap_uma" 25 (integerAbove 0 integer)

def read : Record.Reader FiscalValues := Record.record "FiscalValues" fieldReader Record.noRule

def load : Json → Except Fault FiscalValues := Record.load "FiscalValues" read

end FiscalValues

end Payroll
