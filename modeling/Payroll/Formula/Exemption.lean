import Payroll.Fiscal.Values
import Payroll.Formula.Evaluate

/-!
The value of a concept and its split into a taxable and an exempt part.
-/

namespace Payroll.Formula

open Decimal (ordinary)

/-- How a concept is taxed. Without a positive limit a taxable concept is taxed as a whole. -/
structure ExemptionRule where
  taxable : Bool := true
  exempt : Bool := false
  limit : Option Amount := none
  limitUnit : Json := .null

structure Outcome where
  value : Decimal
  taxable : Decimal
  exempt : Decimal
  expression : String
  inputs : List (Variable × Option Decimal)
  limitAmount : Option Decimal := none

/-- The policy applied to a value of a formula. -/
def roundValueOf (policy : RoundingPolicy) (d : Decimal) : Except Fault Decimal :=
  (policy.apply d).mapError fun f => .cannotRound d f

/-- A reference value of the year, or of the context when no year is given. -/
def referenceValue (reading : Reading) (fiscal : Option FiscalValues)
    (pick : FiscalValues → Decimal) (unit : String) (v : Variable) : Except Fault Decimal :=
  match fiscal with
  | some values => .ok (pick values)
  | none => do
    match ← reading v with
    | some a => a.toDecimal
    | none => throw (.limitNeeds unit v.name)

/-- What one unit of an exemption limit amounts to. -/
def limitUnitValue (reading : Reading) (fiscal : Option FiscalValues) :
    Json → Except Fault Decimal
  | .text "FIXED" => .ok 1
  | .text "UMA" => referenceValue reading fiscal FiscalValues.umaDaily "UMA" .umaDaily
  | .text "UMA_MONTHLY" =>
    referenceValue reading fiscal FiscalValues.umaMonthly "UMA_MONTHLY" .umaMonthly
  | .text "SMG" => referenceValue reading fiscal FiscalValues.smgDaily "SMG" .smgDaily
  | j => .error (.unknownLimit j)

def sortVariables (vs : List Variable) : List Variable :=
  vs.mergeSort fun a b => decide (a.name ≤ b.name)

def variableReport (reading : Reading) (vs : List Variable) :
    Except Fault (List (Variable × Option Decimal)) :=
  vs.mapM fun v => do
    match ← reading v with
    | none => pure (v, none)
    | some a => pure (v, some (← a.toDecimal))

/-- The limit of a rule as a number, zero without one. -/
def ExemptionRule.limitNumber (rule : ExemptionRule) : Except Fault Decimal :=
  match rule.limit with
  | some a => a.toDecimal
  | none => .ok 0

/-- How a value is divided, and the limit if it was looked at. -/
structure Parts where
  taxable : Decimal
  exempt : Decimal
  limitAmount : Option Decimal := none

/-- The exempt part of a value is what lies below the limit, and the rest is taxable. -/
def divide (policy : RoundingPolicy) (reading : Reading) (rule : ExemptionRule)
    (fiscal : Option FiscalValues) (value : Decimal) : Except Fault Parts := do
  if !rule.taxable || rule.exempt then
    return { taxable := ← policy.apply 0, exempt := value }
  let limit ← rule.limitNumber
  if limit.le 0 then
    return { taxable := value, exempt := ← policy.apply 0 }
  let unit ← limitUnitValue reading fiscal rule.limitUnit
  let product ← ordinary.mul limit unit
  let limitAmount ← roundValueOf policy product
  let exempt := Decimal.max2 0 (Decimal.min2 value limitAmount)
  let taxable := Decimal.max2 0 (← arithmetic.sub value exempt)
  return {
    taxable := ← policy.apply taxable
    exempt := ← policy.apply exempt
    limitAmount := some limitAmount }

/-- The value of a formula, divided. -/
def evaluateWithExemption (policy : RoundingPolicy) (reading : Reading) (rule : ExemptionRule)
    (fiscal : Option FiscalValues) (s : String) : Except Fault Outcome := do
  let tree ← accept s
  let raw ← evaluateTree policy.method reading tree
  let value ← roundValueOf policy raw
  let inputs ← variableReport reading (sortVariables tree.vars.eraseDups)
  let parts ← divide policy reading rule fiscal value
  pure {
    value
    taxable := parts.taxable
    exempt := parts.exempt
    expression := s
    inputs
    limitAmount := parts.limitAmount }

end Payroll.Formula
