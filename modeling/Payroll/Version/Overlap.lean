import Payroll.Version.Basic

/-!
Which active versions stand in the way of a new one.
-/

namespace Payroll.Version

structure Coverage where
  fiscalYear : Option Int := none
  validFrom : Option Date := none
  validTo : Option Date := none
  deriving DecidableEq, Repr

def coverageOf (v : FormulaVersion) : Coverage := ⟨v.fiscalYear, v.validFrom, v.validTo⟩

/-- A window without an end runs to the last date there is. -/
def windowEnd (stop : Option Date) : Date := stop.getD Date.latest

def windowsMeet (start : Date) (stop : Option Date) (start' : Date) (stop' : Option Date) : Bool :=
  start.before (windowEnd stop') && start'.before (windowEnd stop)

/-- Why a version and a coverage collide: one fiscal year, dates in common, or no restriction on
either side. -/
def collision? (c : Coverage) (v : FormulaVersion) : Option Reason :=
  if c.fiscalYear.isSome && v.fiscalYear == c.fiscalYear then some .fiscalYear
  else
    match c.validFrom, v.validFrom with
    | some start, some start' =>
      if windowsMeet start c.validTo start' v.validTo then some .dateRange else none
    | none, none =>
      if c.fiscalYear.isNone && v.fiscalYear.isNone then some .unconditional else none
    | _, _ => none

def conflictWith (reason : Reason) (v : FormulaVersion) : Conflict :=
  ⟨v.id, v.version, reason, v.fiscalYear, v.validFrom, v.validTo⟩

/-- The active versions that collide with a coverage, one left out by its id. -/
def conflicts (rows : List FormulaVersion) (c : Coverage) (except : Option String) :
    List Conflict :=
  rows.filterMap fun v =>
    if v.active && some v.id != except then
      (collision? c v).map fun reason => conflictWith reason v
    else none

def Conflict.toFields (c : Conflict) : Fields := [
  ("formula_id", .text c.id),
  ("version", .int c.version),
  ("reason", .text c.reason.name),
  ("fiscal_year", .optional .int c.fiscalYear),
  ("valid_from", .optional (.text ·.text) c.validFrom),
  ("valid_to", .optional (.text ·.text) c.validTo)]

def Conflict.toJson (c : Conflict) : Json := .object c.toFields

def Conflict.described (c : Conflict) : Json :=
  .object (c.toFields ++ [("describe", .text c.describe)])

end Payroll.Version
