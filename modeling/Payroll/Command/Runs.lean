import Payroll.Command.Basic
import Payroll.Decimal.Fixed
import Payroll.Text.Columns

/-!
The command that runs a payroll period from a file.
-/

namespace Payroll.Command.Runs

open Text (padLeft padRight)

structure RunRequest where
  company : String
  file : String
  workers : Int
  user : Option String
  asJson : Bool

def arguments : Arguments RunRequest :=
  RunRequest.mk
    <$> word "COMPANY_ID" asText
    <*> word "RUN_FILE" asText
    <*> defaultedOption ["--workers", "-w"] 4 (suchThat (1 ≤ ·) asInteger)
    <*> option ["--user"] asText
    <*> flag ["--json"]

/-- What the file holds is read as text, which keeps reals only in their usual form. -/
def runFile (path : String) : Action RunFile := do
  match (← get).installation.file? path with
  | none => throw (.usage none)
  | some content =>
    let data := if content.truthy then content.reread else .object []
    match RunFile.load data with
    | .ok f => pure f
    | .error (.invalidRecord _ issues) =>
      let lines := String.intercalate "\n  " (issues.map Issue.line)
      fail s!"Invalid run file {Installation.cleanPath path}:\n  {lines}"
    | .error f => throw (.fault f)

/-- The overrides of a line; of several lines with one employee the last that has any counts. -/
def overridesFor (lines : List RunLine) (id : String) : Json :=
  let own := lines.filter fun l => l.employee.id == id && !l.overrides.isEmpty
  .optional (.object ·.overrides) own.getLast?

def employees (f : RunFile) : List (Employee × Json) :=
  f.lines.map fun l => (l.employee, overridesFor f.lines l.employee.id)

/-- The run on the data directory in use. What was recorded before a fault stays recorded. -/
def runPeriod (o : Occasion) (r : RunRequest) (f : RunFile) : Action (Except Fault Engine.Run) := do
  let d ← data
  let act := Engine.runPeriod (← config) o.now o.id r.company f.period (employees f)
  let (result, engine) := act.run.run { store := d.store, trail := d.trail, author := r.user }
  setData ⟨engine.store, engine.trail⟩
  pure result

structure Amounts where
  perceptions : Decimal
  taxable : Decimal
  imss : Decimal
  deductions : Decimal
  net : Decimal

def Amounts.of (c : Calculation) : Except Fault Amounts := do
  pure ⟨← c.totalPerceptions, ← c.taxableIncome, ← c.imss.employeeTotal, ← c.totalDeductions,
    ← c.netPay⟩

def employeeJson (r : Engine.Recorded) : Except Fault Json := do
  let a ← Amounts.of r.calculation
  pure (.object [
    ("employee_id", .text r.calculation.employee),
    ("payroll_detail_id", .text r.calculation.detail),
    ("total_perceptions", .ofDecimal a.perceptions),
    ("taxable_income", .ofDecimal a.taxable),
    ("isr", .ofDecimal r.calculation.isr.net),
    ("imss", .ofDecimal a.imss),
    ("total_deductions", .ofDecimal a.deductions),
    ("net_pay", .ofDecimal a.net),
    ("skipped", .list (r.calculation.skipped.map fun s => .text s.concept)),
    ("audit_entries", .ofNat r.entries.length)])

def runJson (r : Engine.Run) : Except Fault Json := do
  let employees ← r.calculations.mapM employeeJson
  pure (.object [
    ("period_id", .text r.period),
    ("employees", .list employees),
    ("failures", .object (r.failures.map fun f => (f.1, .text f.2))),
    ("totals", .object (r.summary.kinds.map fun k => (k.kind.name, .ofDecimal k.totalResult)))])

def amountColumns (id perceptions isr imss net : String) : String :=
  "  " ++ padRight 12 id ++ " " ++ padLeft 14 perceptions ++ " " ++ padLeft 12 isr ++ " "
    ++ padLeft 12 imss ++ " " ++ padLeft 14 net

def employeeLines (r : Engine.Recorded) : Except Fault (List String) := do
  let a ← Amounts.of r.calculation
  let amounts := amountColumns r.calculation.employee (a.perceptions.groupedText 2)
    (r.calculation.isr.net.groupedText 2) (a.imss.groupedText 2) (a.net.groupedText 2)
  pure (amounts :: r.calculation.skipped.map fun s => s!"    skipped {s.concept}: {s.reason}")

def byEmployee (a b : Engine.Recorded) : Bool :=
  decide (a.calculation.employee ≤ b.calculation.employee)

def byName (a b : String × String) : Bool := decide (a.1 ≤ b.1)

def runLines (f : RunFile) (r : Engine.Run) : Except Fault (List String) := do
  let employees ← (r.calculations.mergeSort byEmployee).mapM employeeLines
  pure ([s!"Period {r.period} ({f.period.kind.name} {f.period.start} - {f.period.stop})",
      "",
      amountColumns "Employee" "Perceptions" "ISR" "IMSS" "Net pay"]
    ++ employees.flatten
    ++ ["", s!"  {r.summary.entries} audit entries recorded"]
    ++ (r.failures.mergeSort byName).map fun e => s!"  ✗ {e.1}: {e.2}")

def run : Command :=
  taking "run" "Calculate a period for every employee in RUN_FILE." arguments fun o l => do
    let f ← runFile l.file
    let result ← runPeriod o l f
    let r ← explaining (fun e => e.isValueFault || among [.noTables] e) result
    if l.asJson then say (← expecting (runJson r)).indented
    else sayAll (← expecting (runLines f r))
    unless r.failures.isEmpty do fail s!"{r.failures.length} employee(s) failed"

def all : List Command := [run]

end Payroll.Command.Runs
