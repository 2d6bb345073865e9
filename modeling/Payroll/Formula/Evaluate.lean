import Payroll.Formula.Parser
import Payroll.Rounding

/-!
The value of a formula. Arithmetic carries 34 digits; comparisons and logic give one or zero, and
a side that does not decide the result is not evaluated.
-/

namespace Payroll.Formula

open Decimal (Context)

/-- Arithmetic inside formulas. -/
def arithmetic : Context := { precision := 34 }

def flag (b : Bool) : Decimal := if b then 1 else 0

def holds (d : Decimal) : Bool := !d.isZero

namespace UnaryOp

def apply : UnaryOp → Decimal → Except Fault Decimal
  | .minus, d => arithmetic.neg d
  | .plus, d => .ok d
  | .not, d => .ok (flag (!holds d))

end UnaryOp

namespace BinaryOp

/-- The result if the left operand alone decides it. -/
def decidedBy : BinaryOp → Decimal → Option Decimal
  | .and, d => if holds d then none else some 0
  | .or, d => if holds d then some 1 else none
  | _, _ => none

def apply (op : BinaryOp) (l r : Decimal) : Except Fault Decimal :=
  match op with
  | .or | .and => .ok (flag (holds r))
  | .add => arithmetic.add l r
  | .sub => arithmetic.sub l r
  | .mul => arithmetic.mul l r
  | .div => if r.isZero then .error .divisionByZero else arithmetic.div l r
  | .rem => if r.isZero then .error .divisionByZero else arithmetic.rem l r
  | .equal => .ok (flag (l.same r))
  | .notEqual => .ok (flag (!l.same r))
  | .less => .ok (flag (l.lt r))
  | .atMost => .ok (flag (l.le r))
  | .greater => .ok (flag (r.lt l))
  | .atLeast => .ok (flag (r.le l))

end BinaryOp

/-- The places that `round` is asked for: an integer from zero to ten. -/
def roundPlaces (d : Decimal) : Except Fault Nat :=
  if d.same (Decimal.roundToInteger d) ∧ Decimal.le 0 d ∧ d.le 10 then .ok d.truncate.toNat
  else .error (.roundPlaces d)

def Function.apply (method : RoundingMethod) (f : Function) (args : List Decimal) :
    Except Fault Decimal :=
  match f, args with
  | .min, d :: ds => .ok (Decimal.minimum d ds)
  | .max, d :: ds => .ok (Decimal.maximum d ds)
  | .abs, d :: _ => arithmetic.abs d
  | .floor, d :: _ => roundTo arithmetic 0 .floor d
  | .ceil, d :: _ => roundTo arithmetic 0 .ceil d
  | .round, [d] => roundTo arithmetic currencyPlaces method d
  | .round, d :: p :: _ => do roundTo arithmetic (← roundPlaces p) method d
  | .proportional, amount :: numerator :: denominator :: _ =>
    if denominator.isZero then .error .zeroDenominator
    else do
      let product ← arithmetic.mul amount numerator
      arithmetic.div product denominator
  | f, args => .error (.rejected [.arity f args.length])

namespace Expr

mutual

def eval (method : RoundingMethod) (env : Variable → Option Decimal) : Expr → Except Fault Decimal
  | .number d => .ok d
  | .var v =>
    match env v with
    | some d => .ok d
    | none => .error (.variableNotSet v.name)
  | .unary op e =>
    match eval method env e with
    | .ok d => op.apply d
    | .error f => .error f
  | .binary op l r =>
    match eval method env l with
    | .error f => .error f
    | .ok x =>
      match op.decidedBy x with
      | some d => .ok d
      | none =>
        match eval method env r with
        | .ok y => op.apply x y
        | .error f => .error f
  | .conditional t y n =>
    match eval method env t with
    | .error f => .error f
    | .ok d => if holds d then eval method env y else eval method env n
  | .call f es =>
    match evalList method env es with
    | .ok ds => f.apply method ds
    | .error f => .error f

def evalList (method : RoundingMethod) (env : Variable → Option Decimal) :
    List Expr → Except Fault (List Decimal)
  | [] => .ok []
  | e :: es =>
    match eval method env e with
    | .error f => .error f
    | .ok d =>
      match evalList method env es with
      | .ok ds => .ok (d :: ds)
      | .error f => .error f

end

end Expr

/-- What a context says about a variable: a number, data that should denote one, or nothing. -/
abbrev Reading := Variable → Except Fault (Option Amount)

namespace Reading

/-- The fields of an object, a null field counting as absent. -/
def ofFields (fields : Fields) : Reading := fun v =>
  match Fields.lookup fields v.name with
  | none | some .null => .ok none
  | some j => .ok (some (.given j))

/-- Any data; all but objects refuse every look-up. -/
def ofJson : Json → Reading
  | .object fields => ofFields fields
  | j => fun _ => .error (.noAttribute j "get")

def ofValues (values : Variable → Option Decimal) : Reading := fun v =>
  .ok ((values v).map Amount.ofDecimal)

def number (reading : Reading) (v : Variable) : Except Fault Decimal :=
  match reading v with
  | .error f => .error f
  | .ok none => .error (.variableNotSet v.name)
  | .ok (some a) =>
    match a.toDecimal with
    | .ok d => .ok d
    | .error f => .error (.variableInvalid v.name f)

def numbers (reading : Reading) : List Variable → Except Fault (List (Variable × Decimal))
  | [] => .ok []
  | v :: vs =>
    match reading.number v with
    | .error f => .error f
    | .ok d =>
      match numbers reading vs with
      | .ok ds => .ok ((v, d) :: ds)
      | .error f => .error f

end Reading

def valueIn (values : List (Variable × Decimal)) (v : Variable) : Option Decimal :=
  (values.find? fun p => p.1 == v).map (·.2)

/-- Signals raised while a formula is evaluated are faults of the evaluation. -/
def asEvaluation : Fault → Fault
  | .arithmetic s => .evaluation s
  | f => f

/-- The text of a formula given as data; what cannot be a key is refused before it is read. -/
def source : Json → Except Fault String
  | .text s => .ok s
  | .list items => .error (.misuse (.hashing (.list items)))
  | .object fields => .error (.misuse (.hashing (.object fields)))
  | _ => .error (.rejected [.empty])

def accept (s : String) : Except Fault Expr := (parse s).mapError Fault.ofRejection

/-- The value of a tree; every variable of it is looked up first. -/
def evaluateTree (method : RoundingMethod) (reading : Reading) (e : Expr) : Except Fault Decimal :=
  match reading.numbers e.vars.eraseDups with
  | .error f => .error f
  | .ok values => (e.eval method (valueIn values)).mapError asEvaluation

def evaluate (method : RoundingMethod) (reading : Reading) (s : String) : Except Fault Decimal := do
  evaluateTree method reading (← accept s)

def sortNames (names : List String) : List String := names.mergeSort fun a b => decide (a ≤ b)

/-- Names of fields that are no variables are refused. -/
def refuseUndefined (fields : Fields) : Except Fault Unit :=
  match sortNames ((Fields.names fields).filter fun n => (Variable.ofName? n).isNone) with
  | [] => .ok ()
  | unknown => .error (.rejected (unknown.map Rejection.undefinedName))

/-- The given fields, and the sample values for variables without a field. -/
def Reading.ofSample (fields : Fields) : Reading := fun v =>
  match Fields.lookup fields v.name with
  | some .null => .ok none
  | some j => .ok (some (.given j))
  | none => .ok (some v.sample)

/-- A trial run: the given fields override the sample values. -/
def tryOut (method : RoundingMethod) (s : String) (fields : Fields) : Except Fault Decimal := do
  refuseUndefined fields
  evaluate method (.ofSample fields) s

end Payroll.Formula
