import Mathlib
import Payroll.Decimal.Context

/-!
The numbers that decimals denote, and rounding as a function of numbers.
-/

namespace Payroll

/-- A number without its fraction. -/
def truncated (x : ℚ) : ℤ := if 0 ≤ x then ⌊x⌋ else ⌈x⌉

namespace Decimal

/-- The number that a decimal denotes. -/
def value (d : Decimal) : ℚ := d.signed * 10 ^ d.exponent

/-- The integer that a number is rounded to. -/
def Rounding.nearest : Rounding → ℚ → ℤ
  | .floor, x => ⌊x⌋
  | .ceiling, x => ⌈x⌉
  | .halfUp, x => if 0 ≤ x then ⌊x + 1 / 2⌋ else ⌈x - 1 / 2⌉
  | .halfDown, x => if 0 ≤ x then ⌈x - 1 / 2⌉ else ⌊x + 1 / 2⌋
  | .halfEven, x => if Int.fract x = 1 / 2 ∧ Even ⌊x⌋ then ⌊x⌋ else ⌊x + 1 / 2⌋

/-- The numbers that a context holds without rounding: no more digits than its precision, zeros at
either end not counted, and exponents within its limits. -/
def Context.Represents (ctx : Context) (x : ℚ) : Prop :=
  ∃ d : Decimal, d.value = x ∧ d.digits ≤ ctx.precision ∧ ctx.tiny ≤ d.exponent ∧
    d.adjusted ≤ ctx.maxExponent

/-- The place of the last digit that a context has room for in a number. -/
def Context.place (ctx : Context) (x : ℚ) : ℤ :=
  max (Int.log 10 |x| + 1 - ctx.precision) ctx.tiny

/-- What a context makes of a number: its digits down to that place, a half going to the even
neighbour. -/
def Context.rounded (ctx : Context) (x : ℚ) : ℚ :=
  Rounding.nearest .halfEven (x / 10 ^ ctx.place x) * 10 ^ ctx.place x

/-- The sum from left to right, rounded after every number. -/
def Context.runningSum (ctx : Context) (xs : List ℚ) : ℚ :=
  xs.foldl (fun s x => ctx.rounded (s + x)) 0

/-- Any sum of some of the numbers is held without rounding. -/
def Context.Sums (ctx : Context) (xs : List ℚ) : Prop :=
  ∀ ys : List ℚ, ys.Subperm xs → ctx.Represents ys.sum

end Decimal

end Payroll
