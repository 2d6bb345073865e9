import Payroll.Decimal.Text

/-!
Numbers of 64-bit binary floating point. Each is known by its shortest decimal: the one with the
fewest digits that reads back to it, and the nearest of those.
-/

namespace Payroll

/-- A finite number is held as its shortest decimal, which has no trailing zero. -/
inductive Real64
  | finite (d : Decimal)
  | infinity (negative : Bool)
  | nan
  deriving DecidableEq, Repr, Inhabited

namespace Real64

open Decimal

/-- `num / den` to the nearest integer, a half going to the even neighbour. -/
def roundDiv (num den : Nat) : Nat :=
  let q := num / den
  let r := num % den
  if den < 2 * r ∨ (2 * r = den ∧ q % 2 = 1) then q + 1 else q

/-- The exponent `e` with `2 ^ 52 ≤ num / den / 2 ^ e < 2 ^ 53`, or the least one there is. -/
def binaryExponent (num den : Nat) : Int :=
  let e : Int := (Nat.log2 num : Int) - Nat.log2 den - 52
  let fits := den <<< (e + 52).toNat ≤ num <<< (-(e + 52)).toNat
  max (-1074) (if fits then e else e - 1)

/-- Whether `num / den` rounds to `m · 2 ^ e`: it lies between the midpoints to the neighbours,
which count when `m` is even. -/
def readsBack (m : Nat) (e : Int) (num den : Nat) : Bool :=
  let unit := den <<< e.toNat
  let x := (4 * num) <<< (-e).toNat
  let low := if m = 1 <<< 52 ∧ -1074 < e then (4 * m - 1) * unit else (4 * m - 2) * unit
  let high := (4 * m + 2) * unit
  if m % 2 = 0 then low ≤ x && x ≤ high else low < x && x < high

/-- Of the two multiples of `10 ^ k` around `m · 2 ^ e`, the nearest that reads back. -/
def onGrid (m : Nat) (e k : Int) : Option Nat :=
  let num := m <<< e.toNat * pow10 (-k).toNat
  let den := 1 <<< (-e).toNat * pow10 k.toNat
  let low := num / den
  let near := roundDiv num den
  let far := if near = low then low + 1 else low
  [near, far].find? fun n => readsBack m e (n * pow10 k.toNat) (pow10 (-k).toNat)

def leading (num den : Nat) : Int :=
  if den ≤ num then digitCount (num / den) - 1
  else -digitCount ((den - 1) / num)

def dropZeros (n : Nat) (e : Int) : Nat × Int :=
  if n % 10 = 0 ∧ n ≠ 0 then dropZeros (n / 10) (e + 1) else (n, e)
termination_by n

/-- The first grid from `10 ^ k` downwards with a decimal that reads back. -/
def shortest (m : Nat) (e : Int) : Nat → Int → Nat × Int
  | 0, k => (0, k)
  | fuel + 1, k =>
    match onGrid m e k with
    | some n => dropZeros n k
    | none => shortest m e fuel (k - 1)

/-- Seventeen digits always suffice. -/
def ofScaled (negative : Bool) (m : Nat) (e : Int) : Real64 :=
  let top := leading (m <<< e.toNat) (1 <<< (-e).toNat)
  let s := shortest m e 18 top
  .finite ⟨negative, s.1, s.2⟩

/-- The number nearest to a decimal; magnitudes from `2 ^ 1024` less half a unit on are infinite. -/
def ofDecimal (d : Decimal) : Real64 :=
  if d.isZero ∨ d.adjusted < -400 then .finite ⟨d.negative, 0, 0⟩
  else if 400 < d.adjusted then .infinity d.negative
  else
    let num := d.coefficient * pow10 d.exponent.toNat
    let den := pow10 (-d.exponent).toNat
    let e := binaryExponent num den
    let m := roundDiv (num <<< (-e).toNat) (den <<< e.toNat)
    if m = 0 then .finite ⟨d.negative, 0, 0⟩
    else if 971 < e ∨ (e = 971 ∧ m = 1 <<< 53) then .infinity d.negative
    else if m = 1 <<< 53 then ofScaled d.negative (1 <<< 52) (e + 1)
    else ofScaled d.negative m e

/-- The number nearest to `num / den`, counted in units of the least positive one. -/
def unitsOf (num den : Nat) : Nat :=
  let e := binaryExponent num den
  roundDiv (num <<< (-e).toNat) (den <<< e.toNat) <<< (e + 1074).toNat

def signedUnitsOf (num : Int) (den : Nat) : Int :=
  if num < 0 then -unitsOf num.natAbs den else unitsOf num.natAbs den

/-- Two digits at least in the exponent, and always a sign. -/
def exponentText (e : Int) : List Char :=
  let ds := digitsOf e.natAbs
  'e' :: (if e < 0 then '-' else '+') :: (if ds.length < 2 then '0' :: ds else ds)

/-- Positional with at least one digit after the point when the leading digit stands between the
fourth place behind the point and the sixteenth before it, else scientific. -/
def magnitudeText (d : Decimal) : List Char :=
  let ds := digitsOf d.coefficient
  let point : Int := if d.isZero then 1 else d.exponent + ds.length
  if -4 < point ∧ point ≤ 16 then
    if ds.length ≤ point then ds ++ List.replicate (point.toNat - ds.length) '0' ++ ['.', '0']
    else positional ds point
  else positional ds 1 ++ exponentText (point - 1)

def text : Real64 → String
  | .finite d => String.ofList (if d.negative then '-' :: magnitudeText d else magnitudeText d)
  | .infinity false => "inf"
  | .infinity true => "-inf"
  | .nan => "nan"

def isZero : Real64 → Bool
  | .finite d => d.isZero
  | _ => false

def integer? : Real64 → Option Int
  | .finite d => if 0 ≤ d.exponent then some d.truncate else none
  | _ => none

def isNegative : Real64 → Bool
  | .finite d => d.negative && !d.isZero
  | .infinity negative => negative
  | .nan => false

end Real64

end Payroll
