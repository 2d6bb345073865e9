import Payroll.Version.Basic

/-!
The version in effect on a date. A version for the year of the date comes first, then one whose
window holds the date, and failing both the latest active version.
-/

namespace Payroll.Version

inductive Tier
  | fiscalYear
  | dateRange
  | fallback
  deriving DecidableEq, Repr

def Tier.name : Tier → String
  | .fiscalYear => "FISCAL_YEAR"
  | .dateRange => "DATE_RANGE"
  | .fallback => "FALLBACK"

structure Resolved where
  row : FormulaVersion
  tier : Tier
  deriving DecidableEq, Repr

def inWindow (v : FormulaVersion) (target : Date) : Bool :=
  (match v.validFrom with
    | some start => start.orEqual target
    | none => true) &&
  match v.validTo with
    | some stop => target.before stop
    | none => true

/-- Higher versions first, then those of later timestamps, then smaller ids. -/
def byVersion (a b : FormulaVersion) : Ordering :=
  (compare b.version a.version).then
    ((compare b.createdAt.timestamp a.createdAt.timestamp).then (compare a.id b.id))

/-- The start of the window as a number, none before all others. -/
def startRank (v : FormulaVersion) : Nat :=
  match v.validFrom with
  | some start => start.ordinal
  | none => 0

/-- Later starts first and versions without a start last. -/
def byStart (a b : FormulaVersion) : Ordering :=
  (compare (startRank b) (startRank a)).then (byVersion a b)

/-- Later timestamps first. -/
def byCreation (a b : FormulaVersion) : Ordering :=
  (compare b.createdAt.timestamp a.createdAt.timestamp).then
    ((compare b.version a.version).then (compare a.id b.id))

/-- The first of the least members of a list. -/
def least (order : FormulaVersion → FormulaVersion → Ordering) :
    List FormulaVersion → Option FormulaVersion
  | [] => none
  | v :: vs =>
    match least order vs with
    | none => some v
    | some w => some (if order w v == .lt then w else v)

def resolve (rows : List FormulaVersion) (target : Date) : Option Resolved :=
  let active := rows.filter (·.active)
  let ofYear := active.filter fun v => v.fiscalYear == some (target.year : Int)
  let dated := active.filter fun v => v.fiscalYear.isNone && inWindow v target
  match least byVersion ofYear with
  | some v => some ⟨v, .fiscalYear⟩
  | none =>
    match least byStart dated with
    | some v => some ⟨v, .dateRange⟩
    | none => (least byCreation active).map fun v => ⟨v, .fallback⟩

end Payroll.Version
