import Payroll.Decimal.Basic

/-!
Decimal arithmetic to a limited number of digits. Every operation computes the exact result and
fits it to the context: at most `precision` digits, a half going to the even neighbour, and
exponents between the limits.
-/

namespace Payroll.Decimal

inductive Signal
  | invalidOperation
  | conversionSyntax
  | divisionImpossible
  | divisionUndefined
  | divisionByZero
  | overflow
  deriving DecidableEq, Repr

/-- How digits are cut off: to the nearest with a rule for halves, or always one way. -/
inductive Rounding
  | halfUp
  | halfDown
  | halfEven
  | floor
  | ceiling
  deriving DecidableEq, Repr

/-- Whether the kept digits move up, given the cut digits compared with a half. -/
def Rounding.raises (mode : Rounding) (negative odd exact : Bool) (half : Ordering) : Bool :=
  match mode with
  | .halfUp => half != .lt
  | .halfDown => half == .gt
  | .halfEven => half == .gt || (half == .eq && odd)
  | .floor => negative && !exact
  | .ceiling => !negative && !exact

/-- `n` without its last `k` digits, rounded. -/
def cutDigits (mode : Rounding) (negative : Bool) (n k : Nat) : Nat :=
  if digitCount n < k then
    if mode.raises negative false (n == 0) .lt then 1 else 0
  else
    let p := pow10 k
    let q := n / p
    let r := n % p
    if mode.raises negative (q % 2 == 1) (r == 0) (compare (2 * r) p) then q + 1 else q

structure Context where
  precision : Nat
  maxExponent : Int := 999999
  minExponent : Int := -999999
  deriving DecidableEq, Repr

namespace Context

/-- The least exponent of a result, reached by numbers with fewer digits than the precision. -/
def tiny (ctx : Context) : Int := ctx.minExponent - (ctx.precision - 1)

def fit (ctx : Context) (d : Decimal) : Except Signal Decimal :=
  if d.isZero then .ok ⟨d.negative, 0, max ctx.tiny (min d.exponent ctx.maxExponent)⟩
  else if ctx.maxExponent < d.adjusted then .error .overflow
  else
    let e := max d.exponent (max (d.exponent + d.digits - ctx.precision) ctx.tiny)
    let c := cutDigits .halfEven d.negative d.coefficient (e - d.exponent).toNat
    let r : Decimal :=
      if c = pow10 ctx.precision then ⟨d.negative, pow10 (ctx.precision - 1), e + 1⟩
      else ⟨d.negative, c, e⟩
    if ctx.maxExponent < r.adjusted then .error .overflow else .ok r

/-- A summand so far below the last digit of the other that only its sign matters is replaced by
a unit just below that digit. -/
def nudge (ctx : Context) (big small : Decimal) : Decimal :=
  let e := big.exponent - 1 + min 0 ((big.digits : Int) - ctx.precision - 1)
  if small.adjusted < e then ⟨small.negative, min small.coefficient 1, e⟩ else small

def sumAligned (big small : Decimal) : Decimal :=
  let b := big.signed * pow10 (big.exponent - small.exponent).toNat
  let s := b + small.signed
  ⟨if s = 0 then big.negative && small.negative else s < 0, s.natAbs, small.exponent⟩

def add (ctx : Context) (a b : Decimal) : Except Signal Decimal :=
  let big := if b.exponent ≤ a.exponent then a else b
  let small := if b.exponent ≤ a.exponent then b else a
  if big.isZero then
    ctx.fit (sumAligned ⟨big.negative, 0, small.exponent⟩ small)
  else ctx.fit (sumAligned big (ctx.nudge big small))

def sub (ctx : Context) (a b : Decimal) : Except Signal Decimal :=
  ctx.add a { b with negative := !b.negative }

def mul (ctx : Context) (a b : Decimal) : Except Signal Decimal :=
  ctx.fit ⟨a.negative != b.negative, a.coefficient * b.coefficient, a.exponent + b.exponent⟩

/-- Zeros removed from the end of an exact quotient, as long as the exponent stays below `ideal`. -/
def trimZeros (n : Nat) (e ideal : Int) : Nat × Int :=
  if e < ideal ∧ n % 10 = 0 ∧ n ≠ 0 then trimZeros (n / 10) (e + 1) ideal else (n, e)
termination_by n

/-- The quotient is computed to at least one digit more than the precision. Where digits remain, a
last digit that could be taken for an exact result or a half is raised by one. -/
def div (ctx : Context) (a b : Decimal) : Except Signal Decimal :=
  let negative := a.negative != b.negative
  let ideal := a.exponent - b.exponent
  if b.isZero then .error (if a.isZero then .divisionUndefined else .divisionByZero)
  else if a.isZero then ctx.fit ⟨negative, 0, ideal⟩
  else
    let shift : Int := (b.digits : Int) - a.digits + ctx.precision + 1
    let n := a.coefficient * pow10 shift.toNat
    let m := b.coefficient * pow10 (-shift).toNat
    let e := ideal - shift
    let q := n / m
    if n % m = 0 then
      let t := trimZeros q e ideal
      ctx.fit ⟨negative, t.1, t.2⟩
    else ctx.fit ⟨negative, if q % 5 = 0 then q + 1 else q, e⟩

/-- The remainder of the division that cuts the quotient to an integer; it has the sign of the
dividend. The quotient must not need more digits than the precision. -/
def rem (ctx : Context) (a b : Decimal) : Except Signal Decimal :=
  let e := min a.exponent b.exponent
  let gap := a.adjusted - b.adjusted
  if b.isZero then .error (if a.isZero then .divisionUndefined else .invalidOperation)
  else if a.isZero then ctx.fit ⟨a.negative, 0, e⟩
  else if gap < 0 then
    ctx.fit ⟨a.negative, a.coefficient * pow10 (a.exponent - e).toNat, e⟩
  else if (ctx.precision : Int) < gap then .error .divisionImpossible
  else
    let n := a.coefficient * pow10 (a.exponent - e).toNat
    let m := b.coefficient * pow10 (b.exponent - e).toNat
    if pow10 ctx.precision ≤ n / m then .error .divisionImpossible
    else ctx.fit ⟨a.negative, n % m, e⟩

/-- The negation; a zero loses its sign. -/
def neg (ctx : Context) (d : Decimal) : Except Signal Decimal :=
  ctx.fit { d with negative := !d.isZero && !d.negative }

def abs (ctx : Context) (d : Decimal) : Except Signal Decimal :=
  ctx.fit { d with negative := false }

/-- The sum from left to right, fitted after every step. -/
def sum (ctx : Context) (ds : List Decimal) : Except Signal Decimal :=
  ds.foldlM ctx.add 0

/-- The number written with exponent `e`. -/
def quantize (ctx : Context) (mode : Rounding) (e : Int) (d : Decimal) : Except Signal Decimal :=
  if ctx.maxExponent < e ∨ e < ctx.tiny then .error .invalidOperation
  else if d.isZero then ctx.fit ⟨d.negative, 0, e⟩
  else if ctx.maxExponent < d.adjusted ∨ ctx.precision < d.digits + (d.exponent - e) then
    .error .invalidOperation
  else
    let c := if e ≤ d.exponent then d.coefficient * pow10 (d.exponent - e).toNat
      else cutDigits mode d.negative d.coefficient (e - d.exponent).toNat
    let r : Decimal := ⟨d.negative, c, e⟩
    if ctx.maxExponent < r.adjusted ∨ r.adjusted < ctx.tiny then .error .invalidOperation
    else ctx.fit r

end Context

/-- The nearest integer, a half going to the even neighbour; integers keep their exponent. -/
def roundToInteger (d : Decimal) : Decimal :=
  if 0 ≤ d.exponent then d
  else ⟨d.negative, cutDigits .halfEven d.negative d.coefficient d.exponent.natAbs, 0⟩

/-- Arithmetic outside formulas. -/
def ordinary : Context := { precision := 28 }

end Payroll.Decimal
