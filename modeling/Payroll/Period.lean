import Payroll.Record.Reader

/-!
The periods for which salaries are paid.
-/

namespace Payroll

inductive PeriodKind
  | weekly
  | biweekly
  | monthly
  deriving DecidableEq, Repr, Inhabited

namespace PeriodKind

def name : PeriodKind → String
  | .weekly => "WEEKLY"
  | .biweekly => "BIWEEKLY"
  | .monthly => "MONTHLY"

def all : List PeriodKind := [.weekly, .biweekly, .monthly]

theorem mem_all (k : PeriodKind) : k ∈ all := by cases k <;> decide

def ofName? (s : String) : Option PeriodKind := all.find? fun k => k.name == s

/-- The days a period counts, whatever its dates. -/
def days : PeriodKind → Nat
  | .weekly => 7
  | .biweekly => 15
  | .monthly => 30

end PeriodKind

structure Period where
  id : String
  kind : PeriodKind
  year : Int
  start : Date
  stop : Date
  payment : Option Date
  deriving DecidableEq, Repr

namespace Period

def days (p : Period) : Nat := p.kind.days

/-- A period does not end before it starts. -/
def rule (p : Period) : Option String :=
  if p.stop.before p.start then some s!"end_date {p.stop} is before start_date {p.start}" else none

open Record in
def read : Record.Reader Period :=
  record "PeriodSnapshot" (Period.mk
    <$> required "id" text
    <*> required "period_type" (oneOf PeriodKind.ofName?)
    <*> required "year" integer
    <*> required "start_date" date
    <*> required "end_date" date
    <*> optional "payment_date" date) rule

def load : Json → Except Fault Period := Record.load "PeriodSnapshot" read

/-- A period whose data passed the checks of a record. -/
def Loaded (p : Period) : Prop := ∃ j, load j = .ok p

def toJson (p : Period) : Json :=
  .object [
    ("id", .text p.id),
    ("period_type", .text p.kind.name),
    ("year", .int p.year),
    ("start_date", .text p.start.text),
    ("end_date", .text p.stop.text),
    ("payment_date", .optional (.text ·.text) p.payment)]

end Period

end Payroll
