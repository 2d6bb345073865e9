import Payroll.Fault

/-!
Amounts as callers give them: numbers already known, or data that has to denote a number.
-/

namespace Payroll

open Decimal (Numeral)

inductive Amount
  | exact (n : Numeral)
  | given (j : Json)
  deriving Inhabited

namespace Amount

def ofDecimal (d : Decimal) : Amount := .exact (.finite d)

instance : Coe Decimal Amount := ⟨ofDecimal⟩

/-- The number that a text denotes; `j` is the data it was taken from. -/
def ofText (j : Json) (s : String) : Except Fault Decimal :=
  match Decimal.read s.toList with
  | some (.finite d) => .ok d
  | some _ => .error (.notFinite j.shown)
  | none => .error (.notNumber j)

/-- Integers, reals by their shortest text, and text; all else is no number. -/
def toDecimal : Amount → Except Fault Decimal
  | .exact (.finite d) => .ok d
  | .exact n => .error (.notFinite s!"Decimal('{n.text}')")
  | .given (.int n) =>
    match Decimal.ofInteger? n with
    | some d => .ok d
    | none => .error (.arithmetic .invalidOperation)
  | .given (.real x) => ofText (.real x) x.text
  | .given (.text s) => ofText (.text s) s
  | .given j => .error (.notNumber j)

@[simp] theorem toDecimal_ofDecimal (d : Decimal) : (ofDecimal d).toDecimal = .ok d := rfl

end Amount

def Json.toDecimal (j : Json) : Except Fault Decimal := (Amount.given j).toDecimal

/-- A decimal as data is its text. -/
def Json.ofDecimal (d : Decimal) : Json := .text d.text

end Payroll
