import Payroll.Fiscal.Published

/-!
The tables in effect for a year: those of the year or else of the latest year before it. Table
files of an installation take precedence over the published tables.
-/

namespace Payroll

open Text

/-- The contents of the table files by the names of the files. -/
abbrev TableFiles := Fields

namespace TableFiles

def yearOfName (name : String) : Except Fault Nat :=
  match name.toList.mapM digitValue? with
  | some ds => .ok (ds.foldl (fun n d => 10 * n + d) 0)
  | none => .error (.integerText name)

def namesYear (name : String) : Bool := name != "" && name.toList.all isDigit

/-- A year put into its place among later and earlier ones, once. -/
def insertYear (year : Nat) : List Nat → List Nat
  | [] => [year]
  | y :: ys =>
    if y < year then year :: y :: ys
    else if y = year then y :: ys
    else y :: insertYear year ys

def descending (years : List Nat) : List Nat := years.foldr insertYear []

def years (files : TableFiles) : Except Fault (List Nat) := do
  let own ← ((Fields.names files).filter namesYear).mapM yearOfName
  pure (descending (own ++ Published.all.map (·.1)))

def tablesOf? (files : TableFiles) (year : Nat) : Option (Except Fault TableSet) :=
  match Fields.lookup files (toString year) with
  | some content =>
    let data := if content.truthy then content.reread.realsAsText else .object []
    some (TableSet.load data)
  | none => (Published.all.find? fun t => t.1 == year).map fun t => .ok t.2

/-- `directory` is where a table file can be added. A year too long to be written names no file. -/
def load (files : TableFiles) (directory : String) (year : Int) : Except Fault TableSet := do
  let years ← files.years
  if Record.maxIntegerText < digitCount year.natAbs then throw .integerLength
  let candidates := years.filter fun y => decide (Int.ofNat y ≤ year)
  match candidates.findSome? files.tablesOf? with
  | some tables => tables
  | none => throw (.noTables year s!"{directory}/{year}.yaml")

end TableFiles

end Payroll
