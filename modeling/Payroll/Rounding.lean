import Payroll.Record.Reader

/-!
Rounding of amounts to decimal places, and the policy by which a company rounds.
-/

namespace Payroll

open Decimal (Context Rounding ordinary)

inductive RoundingMethod
  | round
  | floor
  | ceil
  | halfUp
  | halfEven
  deriving DecidableEq, Repr

namespace RoundingMethod

def name : RoundingMethod → String
  | .round => "ROUND"
  | .floor => "FLOOR"
  | .ceil => "CEIL"
  | .halfUp => "HALF_UP"
  | .halfEven => "HALF_EVEN"

def all : List RoundingMethod := [.round, .floor, .ceil, .halfUp, .halfEven]

theorem mem_all (m : RoundingMethod) : m ∈ all := by cases m <;> decide

def ofName? (s : String) : Option RoundingMethod := all.find? fun m => m.name == s

def ofJson (j : Json) : Except Fault RoundingMethod :=
  match j.text?.bind ofName? with
  | some m => .ok m
  | none => .error (.unknownMethod j)

end RoundingMethod

/-- The least and most decimal places are zero and this many. -/
def maxPlaces : Nat := 10

/-- No context can hold more digits. -/
def maxPrecision : Int := 999999999999999999

def placesOf : Json → Except Fault Nat
  | .int n => if 0 ≤ n ∧ n ≤ maxPlaces then .ok n.toNat else .error (.precisionRange n)
  | j => .error (.precisionKind j)

/-- Room for every digit before the point and the places after it. -/
def roundingContext (outer : Context) (places : Nat) (d : Decimal) : Except Fault Context :=
  let precision := max (outer.precision : Int) (d.adjusted + places + 2)
  if maxPrecision < precision then .error .digitLimit
  else .ok { outer with precision := precision.toNat }

/-- `d` with `places` decimal places. `ROUND` takes halves away from zero, and `HALF_UP` toward
positive infinity: there a negative number is negated, rounded with halves down, and negated. -/
def roundTo (outer : Context) (places : Nat) (method : RoundingMethod) (d : Decimal) :
    Except Fault Decimal := do
  let ctx ← roundingContext outer places d
  let quantize (mode : Rounding) (x : Decimal) := ctx.quantize mode (-places) x
  match method with
  | .round => quantize .halfUp d
  | .floor => quantize .floor d
  | .ceil => quantize .ceiling d
  | .halfEven => quantize .halfEven d
  | .halfUp =>
    if d.lt 0 then do
      let m ← ctx.neg d
      let q ← quantize .halfDown m
      ctx.neg q
    else quantize .halfUp d

/-- Rounding with places and method as data; the places are looked at first and the value last. -/
def roundValue (value places method : Json) : Except Fault Decimal := do
  let places ← placesOf places
  let method ← RoundingMethod.ofJson method
  let d ← value.toDecimal
  roundTo ordinary places method d

structure RoundingTrace where
  value : Decimal
  original : Decimal
  adjustment : Decimal

/-- A rounded value with the original and what rounding added to it. -/
def roundTrace (value places method : Json) : Except Fault RoundingTrace := do
  let original ← value.toDecimal
  let places ← placesOf places
  let method ← RoundingMethod.ofJson method
  let rounded ← roundTo ordinary places method original
  let adjustment ← ordinary.sub rounded original
  pure ⟨rounded, original, adjustment⟩

/-- The sum of the values, rounded once. -/
def sumAndRound (values : List Json) (places method : Json) : Except Fault Decimal := do
  let total ← values.foldlM (fun acc v => do ordinary.add acc (← v.toDecimal)) 0
  let places ← placesOf places
  let method ← RoundingMethod.ofJson method
  roundTo ordinary places method total

def partsOf : Json → Except Fault Nat
  | .int n => if 1 ≤ n then .ok n.toNat else .error (.partCount (.int n))
  | j => .error (.partCount j)

/-- Equal rounded shares of a total, the last of which takes what is left. -/
def distribute (total parts places method : Json) : Except Fault (List Decimal) := do
  let n ← partsOf parts
  let whole ← roundValue total places method
  let places ← placesOf places
  let method ← RoundingMethod.ofJson method
  let share ← roundTo ordinary places method (← ordinary.div whole (.ofInt n))
  let last ← ordinary.sub whole (← ordinary.mul share (.ofInt (n - 1 : Nat)))
  pure (List.replicate (n - 1) share ++ [last])

def percentage (amount percent places method : Json) : Except Fault Decimal := do
  let product ← ordinary.mul (← amount.toDecimal) (← percent.toDecimal)
  let d ← ordinary.div product 100
  let places ← placesOf places
  let method ← RoundingMethod.ofJson method
  roundTo ordinary places method d

def fitsPlaces (value places : Json) : Except Fault Bool := do
  let places ← placesOf places
  let d ← value.toDecimal
  let ctx ← roundingContext ordinary places d
  let q ← ctx.quantize .halfEven (-places) d
  pure (d.same q)

/-- The places are at most ten. -/
structure RoundingPolicy where
  method : RoundingMethod := .round
  places : Nat := 2
  bounded : places ≤ maxPlaces := by decide
  deriving DecidableEq, Repr

namespace RoundingPolicy

def standard : RoundingPolicy := {}

def apply (p : RoundingPolicy) (d : Decimal) : Except Fault Decimal :=
  roundTo ordinary p.places p.method d

def applyTo (p : RoundingPolicy) (a : Amount) : Except Fault Decimal := do
  p.apply (← a.toDecimal)

def ofPlaces (m : RoundingMethod) (n : Fin (maxPlaces + 1)) : RoundingPolicy :=
  ⟨m, n, Nat.le_of_lt_succ n.isLt⟩

def toFields (p : RoundingPolicy) : Fields :=
  [("method", .text p.method.name), ("precision", .int p.places)]

def toJson (p : RoundingPolicy) : Json := .object p.toFields

open Record in
def readPlaces : Record.Reader (Fin (maxPlaces + 1)) := fun j =>
  (integerAtLeast 0 (integerAtMost maxPlaces integer) j).map fun n => Fin.ofNat _ n.toNat

open Record in
def fieldReader : FieldReader RoundingPolicy :=
  RoundingPolicy.ofPlaces
    <$> defaulted "method" .round (choice RoundingMethod.ofName?)
    <*> defaulted "precision" 2 readPlaces

def read : Record.Reader RoundingPolicy :=
  Record.record "RoundingPolicy" fieldReader Record.noRule

def load : Json → Except Fault RoundingPolicy := Record.load "RoundingPolicy" read

end RoundingPolicy

def standardPlaces : List (String × Nat) :=
  [("CURRENCY", 2), ("PERCENTAGE", 4), ("DAYS", 2), ("HOURS", 2), ("SALARY_DAILY", 4), ("UMA", 4)]

def currencyPlaces : Nat := 2

def ratePlaces : Nat := 4

def dayPlaces : Nat := 2

def salaryPlaces : Nat := 4

/-- Halves away from zero. -/
def roundHalfAway (places : Nat) (d : Decimal) : Except Fault Decimal :=
  roundTo ordinary places .round d

end Payroll
