import Payroll.Audit.Trail
import Payroll.Formula.Exemption
import Payroll.Json.Number
import Payroll.Tax.Isr

/-!
Checks of stored entries: the snapshot is hashed again, the rules are summed again, and the amount
is computed again from the snapshot alone.
-/

namespace Payroll

structure IntegrityCheck where
  entry : String
  valid : Bool := false
  recomputed : Option Decimal := none
  stored : Decimal
  checksumValid : Bool := true
  hashValid : Bool := true
  details : List String := []
  deriving DecidableEq, Repr

namespace Replay

/-- An amount computed again, and whether the checksum of the rules is the stored one. -/
structure Outcome where
  amount : Decimal
  checksumValid : Bool

def isText (j : Json) (s : String) : Bool :=
  match j with
  | .text t => t == s
  | _ => false

/-- The bracket table of a snapshot, and whether its checksum is the stored one. -/
def storedTable {α : Type} [BracketTerms α] (rules : Json) :
    Except Fault (BracketTable α × Bool) := do
  let stored ← rules.select "table"
  let name ← stored.select "name"
  let rows ← (← (← stored.select "rows").members).mapM Bracket.load
  let table ← BracketTable.of? name.plain rows
  let checksum ← stored.select "checksum"
  pure (table, isText checksum table.checksum)

def isr (policy : RoundingPolicy) (rules calculation : Json) : Except Fault Outcome := do
  let (table, checksumValid) ← storedTable rules
  let base ← (← calculation.select "base").toDecimal
  pure ⟨(← Isr.calculate policy table base).isr, checksumValid⟩

def subsidy (policy : RoundingPolicy) (rules calculation : Json) : Except Fault Outcome := do
  let (table, checksumValid) ← storedTable rules
  let base ← (← calculation.select "base").toDecimal
  pure ⟨(← Isr.subsidy policy table base).subsidy, checksumValid⟩

def storedRates (rules : Json) : Except Fault (List ImssRate) := do
  (← (← rules.select "rates").members).mapM ImssRate.load

def storedRiskRates (rules : Json) : Except Fault (List (String × Decimal)) := do
  (← (← rules.select "risk_classes").entries).mapM fun f => do pure (f.1, ← f.2.toDecimal)

def ratesChecksum (rates : List ImssRate) (risks : List (String × Decimal)) : String :=
  (Json.object [
    ("rates", .list (rates.map ImssRate.toJson)),
    ("risk_classes", .object (risks.map fun r => (r.1, .ofDecimal r.2)))]).checksum

def imss (policy : RoundingPolicy) (inputs rules calculation : Json)
    (total : ImssResult → Except Fault Decimal) : Except Fault Outcome := do
  let rates ← storedRates rules
  let risks ← storedRiskRates rules
  let checksum ← rules.select "checksum"
  let sbc ← calculation.select "sbc"
  let days ← (← calculation.select "days").toInteger
  let values ← FiscalValues.load (← inputs.select "fiscal_parameters")
  let risk := (calculation.field? "risk_class").getD .null
  let amounts := risks.map fun r => (r.1, Amount.ofDecimal r.2)
  let result ← Imss.calculate policy rates values amounts (.given sbc) days risk
  pure ⟨← total result, isText checksum (ratesChecksum rates risks)⟩

def formula (policy : RoundingPolicy) (inputs rules calculation : Json) : Except Fault Outcome := do
  let stored ← rules.select "formula"
  let expression ← stored.select "expression"
  let checksum ← rules.select "checksum"
  let given ← calculation.select "variables"
  let taxable ← stored.select "is_taxable"
  let limit ← stored.select "exempt_limit"
  let limitUnit ← stored.select "exempt_limit_type"
  let exempt ← stored.select "is_exempt"
  let values ← FiscalValues.load (← inputs.select "fiscal_parameters")
  let rule : Formula.ExemptionRule := {
    taxable := taxable.truthy
    exempt := exempt.truthy
    limit := if limit.isNull then none else some (.given limit)
    limitUnit }
  let outcome ← Formula.evaluateWithExemption policy (.ofJson given) rule (some values)
    (← Formula.source expression)
  pure ⟨outcome.value, isText checksum expression.checksum⟩

def recompute (kind : AuditKind) (inputs rules : Fields) : Except Fault Outcome := do
  let calculation := (Fields.lookup inputs "calculation").getD (.object [])
  let policy ← RoundingPolicy.load (← (Json.object rules).select "rounding")
  let inputs := Json.object inputs
  let rules := Json.object rules
  match kind with
  | .isr => isr policy rules calculation
  | .subsidy => subsidy policy rules calculation
  | .imssEmployee => imss policy inputs rules calculation ImssResult.employeeTotal
  | .imssEmployer => imss policy inputs rules calculation ImssResult.employerTotal
  | .housing => imss policy inputs rules calculation ImssResult.housing
  | .formula => formula policy inputs rules calculation

/-- Faults that only say that a snapshot is no good; any other stops the check. -/
def isReplayFault (f : Fault) : Bool :=
  f.isValueFault || f.isFormulaFault || f.kind = .key || f.kind = .misuse
    || f.kind = .bracketTable || f.kind = .imssRate

def firstLine (s : String) : String := String.ofList (s.toList.takeWhile (· != '\n'))

def noSnapshot : String := "Entry has no snapshot to recompute from"

def hashMismatch : String := "Snapshot hash does not match snapshot contents"

def checksumMismatch : String := "Rule checksum does not match the stored rules"

def judge (e : AuditEntry) (hashValid : Bool) (o : Outcome) : IntegrityCheck :=
  let agrees := o.amount.same e.result
  { entry := e.id
    valid := hashValid && o.checksumValid && agrees
    recomputed := some o.amount
    stored := e.result
    checksumValid := o.checksumValid
    hashValid
    details := (if hashValid then [] else [hashMismatch])
      ++ (if o.checksumValid then [] else [checksumMismatch])
      ++ (if agrees then [] else [s!"Recomputed {o.amount} != stored {e.result}"]) }

def unreplayable (e : AuditEntry) (hashValid : Bool) (f : Fault) : IntegrityCheck :=
  { entry := e.id
    stored := e.result
    hashValid
    details := (if hashValid then [] else [hashMismatch])
      ++ [firstLine s!"Snapshot cannot be replayed: {f.message}"] }

def checkEntry (e : AuditEntry) : Except Fault IntegrityCheck :=
  match e.inputSnapshot, e.rulesSnapshot with
  | some (i :: is), some (r :: rs) =>
    let hashValid := e.snapshotHash == some e.hashedContent.checksum
    match recompute e.kind (i :: is) (r :: rs) with
    | .ok o => .ok (judge e hashValid o)
    | .error f => if isReplayFault f then .ok (unreplayable e hashValid f) else .error f
  | _, _ => .ok { entry := e.id, stored := e.result, details := [noSnapshot] }

end Replay

namespace AuditTrail

def verify (t : AuditTrail) (id : Json) : Except Fault IntegrityCheck := do
  Replay.checkEntry (← t.entry id)

def verifyPeriod (t : AuditTrail) (period : Json) : Except Fault (List IntegrityCheck) := do
  (← t.list { period }).mapM fun e => t.verify (.text e.id)

end AuditTrail

namespace IntegrityCheck

def toJson (c : IntegrityCheck) : Json :=
  .object [
    ("entry_id", .text c.entry),
    ("valid", .bool c.valid),
    ("recomputed", .optional .ofDecimal c.recomputed),
    ("stored", .ofDecimal c.stored),
    ("checksum_valid", .bool c.checksumValid),
    ("hash_valid", .bool c.hashValid),
    ("details", .list (c.details.map Json.text))]

end IntegrityCheck

end Payroll
