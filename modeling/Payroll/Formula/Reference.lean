import Mathlib
import Payroll.Decimal.Meaning
import Payroll.Formula.Evaluate

/-!
What a formula means over exact numbers, and which formulas stay within the digits and exponents of
formula arithmetic.
-/

namespace Payroll

open Decimal (Rounding)

namespace RoundingMethod

/-- The integer that a method rounds to; halves go away from zero, up, or to the even neighbour. -/
def nearest : RoundingMethod → ℚ → ℤ
  | .round => Rounding.nearest .halfUp
  | .floor => Rounding.nearest .floor
  | .ceil => Rounding.nearest .ceiling
  | .halfUp => fun x => ⌊x + 1 / 2⌋
  | .halfEven => Rounding.nearest .halfEven

/-- A number rounded to decimal places. -/
def exact (method : RoundingMethod) (places : Nat) (x : ℚ) : ℚ :=
  method.nearest (x * 10 ^ places) / 10 ^ places

end RoundingMethod

namespace Formula

def truth (b : Bool) : ℚ := if b then 1 else 0

def UnaryOp.exact : UnaryOp → ℚ → ℚ
  | .minus, x => -x
  | .plus, x => x
  | .not, x => truth (x = 0)

namespace BinaryOp

/-- The result if the left operand alone decides it. -/
def shortcut : BinaryOp → ℚ → Option ℚ
  | .and, x => if x = 0 then some 0 else none
  | .or, x => if x = 0 then none else some 1
  | _, _ => none

/-- The result where the left operand does not decide it, undefined for a divisor that is zero. -/
def exact : BinaryOp → ℚ → ℚ → Option ℚ
  | .or, _, y | .and, _, y => some (truth (y ≠ 0))
  | .add, x, y => some (x + y)
  | .sub, x, y => some (x - y)
  | .mul, x, y => some (x * y)
  | .div, x, y => if y = 0 then none else some (x / y)
  | .rem, x, y => if y = 0 then none else some (x - y * truncated (x / y))
  | .equal, x, y => some (truth (x = y))
  | .notEqual, x, y => some (truth (x ≠ y))
  | .less, x, y => some (truth (x < y))
  | .atMost, x, y => some (truth (x ≤ y))
  | .greater, x, y => some (truth (y < x))
  | .atLeast, x, y => some (truth (y ≤ x))

end BinaryOp

/-- The result of a function, undefined for a denominator of zero and for places that are not an
integer from zero to ten. -/
def Function.exact (method : RoundingMethod) : Function → List ℚ → Option ℚ
  | .min, x :: xs => some (xs.foldl Min.min x)
  | .max, x :: xs => some (xs.foldl Max.max x)
  | .abs, [x] => some |x|
  | .floor, [x] => some ⌊x⌋
  | .ceil, [x] => some ⌈x⌉
  | .round, [x] => some (method.exact currencyPlaces x)
  | .round, [x, p] =>
    if (⌊p⌋ : ℚ) = p ∧ 0 ≤ p ∧ p ≤ maxPlaces then some (method.exact ⌊p⌋.toNat x) else none
  | .proportional, [amount, numerator, denominator] =>
    if denominator = 0 then none else some (amount * numerator / denominator)
  | _, _ => none

namespace Expr

mutual

/-- The exact value of a tree. A branch that is not taken and a side that does not decide the result
have no part in it. -/
def exact (method : RoundingMethod) (env : Variable → Option ℚ) : Expr → Option ℚ
  | .number d => some d.value
  | .var v => env v
  | .unary op e => (exact method env e).map op.exact
  | .binary op l r =>
    (exact method env l).bind fun x =>
      match op.shortcut x with
      | some z => some z
      | none => (exact method env r).bind (op.exact x)
  | .conditional t y n =>
    (exact method env t).bind fun x => if x = 0 then exact method env n else exact method env y
  | .call f es => (exactList method env es).bind (f.exact method)

def exactList (method : RoundingMethod) (env : Variable → Option ℚ) : List Expr → Option (List ℚ)
  | [] => some []
  | e :: es => (exact method env e).bind fun x => (exactList method env es).map (x :: ·)

end

end Expr

/-! Which evaluations stay within the limits -/

def Held (x : ℚ) : Prop := arithmetic.Represents x

/-- A decimal whose value is held; a zero has an exponent of its own. -/
def HeldDecimal (d : Decimal) : Prop := Held d.value ∧ d.exponent ≤ arithmetic.maxExponent

/-- The result is held, and so is the integer quotient that a remainder is computed with. -/
def BinaryOp.Fits (op : BinaryOp) (x y : ℚ) : Prop :=
  (op = .rem → y ≠ 0 → |truncated (x / y)| < 10 ^ arithmetic.precision) ∧
    ∀ z ∈ op.exact x y, Held z

/-- The result is held, and so is the product of a proportion. -/
def Function.Fits (method : RoundingMethod) (f : Function) (xs : List ℚ) : Prop :=
  (∀ amount numerator denominator, f = .proportional → xs = [amount, numerator, denominator] →
    denominator ≠ 0 → Held (amount * numerator)) ∧ ∀ z ∈ f.exact method xs, Held z

def valuesOf (env : Variable → Option Decimal) (v : Variable) : Option ℚ := (env v).map Decimal.value

namespace Expr

mutual

/-- Everything that is met on the path of the evaluation is held. -/
def Fits (method : RoundingMethod) (env : Variable → Option Decimal) : Expr → Prop
  | .number d => HeldDecimal d
  | .var v => ∀ d ∈ env v, HeldDecimal d
  | .unary op e =>
    Fits method env e ∧ ∀ x ∈ exact method (valuesOf env) e, Held (op.exact x)
  | .binary op l r =>
    Fits method env l ∧ ∀ x ∈ exact method (valuesOf env) l, op.shortcut x = none →
      Fits method env r ∧ ∀ y ∈ exact method (valuesOf env) r, op.Fits x y
  | .conditional t y n =>
    Fits method env t ∧ ∀ x ∈ exact method (valuesOf env) t,
      (x ≠ 0 → Fits method env y) ∧ (x = 0 → Fits method env n)
  | .call f es =>
    FitsList method env es ∧ ∀ xs ∈ exactList method (valuesOf env) es, f.Fits method xs

def FitsList (method : RoundingMethod) (env : Variable → Option Decimal) : List Expr → Prop
  | [] => True
  | e :: es =>
    Fits method env e ∧ ((exact method (valuesOf env) e).isSome → FitsList method env es)

end

end Expr

/-- The number that a context has for a variable. -/
def Reading.value? (r : Reading) (v : Variable) : Option Decimal := (r.number v).toOption

end Formula

end Payroll
