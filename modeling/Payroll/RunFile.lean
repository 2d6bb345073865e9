import Payroll.Employee
import Payroll.Period

/-!
The input of a payroll run: a period and its employees.
-/

namespace Payroll

structure RunFile where
  period : Period
  lines : List RunLine

namespace RunFile

open Record in
def read : Record.Reader RunFile :=
  record "PayrollRunFile" (RunFile.mk
    <$> required "period" Period.read
    <*> required "employees" (nonemptyListOf RunLine.read)) noRule

def load : Json → Except Fault RunFile := Record.load "PayrollRunFile" read

def toJson (f : RunFile) : Json :=
  .object [("period", f.period.toJson), ("employees", .list (f.lines.map RunLine.toJson))]

end RunFile

end Payroll
