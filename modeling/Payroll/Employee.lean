import Payroll.Record.Reader

/-!
What a calculation knows of an employee.
-/

namespace Payroll

inductive RiskClass
  | i
  | ii
  | iii
  | iv
  | v
  deriving DecidableEq, Repr, Inhabited

namespace RiskClass

def name : RiskClass → String
  | .i => "CLASE_I"
  | .ii => "CLASE_II"
  | .iii => "CLASE_III"
  | .iv => "CLASE_IV"
  | .v => "CLASE_V"

def all : List RiskClass := [.i, .ii, .iii, .iv, .v]

theorem mem_all (c : RiskClass) : c ∈ all := by cases c <;> decide

def ofName? (s : String) : Option RiskClass := all.find? fun c => c.name == s

end RiskClass

/-- The salary is monthly. Daily salary and contribution base are derived from it if not given. -/
structure Employee where
  id : String
  number : Option String
  rfc : Option String
  baseSalary : Decimal
  dailySalary : Option Decimal
  sbc : Option Decimal
  hireDate : Date
  riskClass : Option RiskClass
  deriving DecidableEq, Repr

namespace Employee

open Record in
def fieldReader : FieldReader Employee :=
  Employee.mk
    <$> required "id" text
    <*> optional "employee_number" text
    <*> optional "rfc" text
    <*> required "base_salary" (atLeast 0 decimal)
    <*> optional "daily_salary" (atLeast 0 decimal)
    <*> optional "sbc" (atLeast 0 decimal)
    <*> required "hire_date" date
    <*> optional "risk_class" (oneOf RiskClass.ofName?)

def read : Record.Reader Employee := Record.record "EmployeeSnapshot" fieldReader Record.noRule

def load : Json → Except Fault Employee := Record.load "EmployeeSnapshot" read

/-- An employee whose data passed the checks of a record. -/
def Loaded (e : Employee) : Prop := ∃ j, load j = .ok e

def toFields (e : Employee) : Fields := [
  ("id", .text e.id),
  ("employee_number", .optional .text e.number),
  ("rfc", .optional .text e.rfc),
  ("base_salary", .ofDecimal e.baseSalary),
  ("daily_salary", .optional .ofDecimal e.dailySalary),
  ("sbc", .optional .ofDecimal e.sbc),
  ("hire_date", .text e.hireDate.text),
  ("risk_class", .optional (.text ·.name) e.riskClass)]

def toJson (e : Employee) : Json := .object e.toFields

end Employee

structure RunLine where
  employee : Employee
  overrides : Fields

namespace RunLine

open Record in
def read : Record.Reader RunLine :=
  record "PayrollRunEmployee" (RunLine.mk
    <$> Employee.fieldReader
    <*> defaulted "variables" [] fields) noRule

def load : Json → Except Fault RunLine := Record.load "PayrollRunEmployee" read

def toJson (l : RunLine) : Json :=
  .object (l.employee.toFields ++ [("variables", .object l.overrides)])

end RunLine

end Payroll
