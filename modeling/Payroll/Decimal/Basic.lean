/-!
Exact decimal numbers and their order. A number keeps the exponent it was written with, so `1.50`
and `1.5` are different decimals of the same value; comparisons look at the value only.
-/

namespace Payroll

def pow10 (k : Nat) : Nat := Nat.pow 10 k

theorem pow10_succ (k : Nat) : pow10 (k + 1) = pow10 k * 10 := rfl

/-- The number of decimal digits of a natural number; zero has one digit. -/
def digitCount (n : Nat) : Nat :=
  if n < 10 then 1 else digitCount (n / 10) + 1

theorem digitCount_pos (n : Nat) : 0 < digitCount n := by
  unfold digitCount; split <;> omega

theorem lt_pow10_digitCount (n : Nat) : n < pow10 (digitCount n) := by
  induction n using Nat.strongRecOn with
  | ind n ih =>
      rw [digitCount]
      split
      · rw [pow10_succ]; change n < 1 * 10; omega
      · have h := ih (n / 10) (by omega)
        rw [pow10_succ]; omega

theorem pow10_digitCount_le {n : Nat} (h : n ≠ 0) : pow10 (digitCount n - 1) ≤ n := by
  induction n using Nat.strongRecOn with
  | ind n ih =>
      rw [digitCount]
      split
      · change 1 ≤ n; omega
      · have hd := ih (n / 10) (by omega) (by omega)
        have hp := digitCount_pos (n / 10)
        have he : digitCount (n / 10) + 1 - 1 = digitCount (n / 10) - 1 + 1 := by omega
        rw [he, pow10_succ]; omega

/-- The number `± coefficient × 10 ^ exponent`. A zero keeps its sign and its exponent. -/
structure Decimal where
  negative : Bool
  coefficient : Nat
  exponent : Int
  deriving DecidableEq, Repr, Inhabited

namespace Decimal

def ofInt (n : Int) : Decimal := ⟨n < 0, n.natAbs, 0⟩

instance (n : Nat) : OfNat Decimal n := ⟨⟨false, n, 0⟩⟩

/-- A literal keeps the exponent it is written with. -/
instance : OfScientific Decimal where
  ofScientific m negative e := ⟨false, m, if negative then -e else e⟩

def isZero (d : Decimal) : Bool := d.coefficient == 0

def digits (d : Decimal) : Nat := digitCount d.coefficient

/-- The exponent of the leading digit. -/
def adjusted (d : Decimal) : Int := d.exponent + d.digits - 1

/-- Numbers of different leading exponents differ in size; otherwise the exponents differ by fewer
places than a coefficient has digits, and the coefficients are compared on a common exponent. -/
def compareSize (a b : Decimal) : Ordering :=
  if a.isZero || b.isZero then compare a.coefficient b.coefficient
  else if a.adjusted ≠ b.adjusted then compare a.adjusted b.adjusted
  else
    let e := min a.exponent b.exponent
    compare (a.coefficient * pow10 (a.exponent - e).toNat)
      (b.coefficient * pow10 (b.exponent - e).toNat)

def cmp (a b : Decimal) : Ordering :=
  match a.negative && !a.isZero, b.negative && !b.isZero with
  | false, false => compareSize a b
  | true, true => compareSize b a
  | true, false => .lt
  | false, true => .gt

def lt (a b : Decimal) : Bool := cmp a b == .lt

def le (a b : Decimal) : Bool := cmp a b != .gt

def same (a b : Decimal) : Bool := cmp a b == .eq

def minimum : Decimal → List Decimal → Decimal
  | d, [] => d
  | d, e :: es => minimum (if e.lt d then e else d) es

def maximum : Decimal → List Decimal → Decimal
  | d, [] => d
  | d, e :: es => maximum (if d.lt e then e else d) es

def min2 (a b : Decimal) : Decimal := minimum a [b]

def max2 (a b : Decimal) : Decimal := maximum a [b]

def truncate (d : Decimal) : Int :=
  let n := if d.exponent < 0 then
      if d.digits < d.exponent.natAbs then 0 else d.coefficient / pow10 d.exponent.natAbs
    else d.coefficient * pow10 d.exponent.toNat
  if d.negative then -n else n

def signed (d : Decimal) : Int :=
  if d.negative then -d.coefficient else d.coefficient

end Decimal

end Payroll
