import Payroll.Record.Reader
import Payroll.Version.Conflict

/-!
Versions of the formula that computes a concept. A version applies to a fiscal year or to the dates
of a window, of which the first date belongs to it and the last does not.
-/

namespace Payroll

inductive ConceptKind
  | perception
  | deduction
  deriving DecidableEq, Repr, Inhabited

namespace ConceptKind

def name : ConceptKind → String
  | .perception => "PERCEPTION"
  | .deduction => "DEDUCTION"

def all : List ConceptKind := [.perception, .deduction]

theorem mem_all (k : ConceptKind) : k ∈ all := by cases k <;> decide

def ofName? (s : String) : Option ConceptKind := all.find? fun k => k.name == s

end ConceptKind

/-- What the limit of an exemption is a multiple of. -/
inductive LimitUnit
  | uma
  | umaMonthly
  | smg
  | fixed
  deriving DecidableEq, Repr

namespace LimitUnit

def name : LimitUnit → String
  | .uma => "UMA"
  | .umaMonthly => "UMA_MONTHLY"
  | .smg => "SMG"
  | .fixed => "FIXED"

def all : List LimitUnit := [.uma, .umaMonthly, .smg, .fixed]

theorem mem_all (u : LimitUnit) : u ∈ all := by cases u <;> decide

def ofName? (s : String) : Option LimitUnit := all.find? fun u => u.name == s

end LimitUnit

/-- Versions of a company's concept share a scope. A superseded version is no longer active. -/
structure FormulaVersion where
  id : String
  company : String
  concept : String
  kind : ConceptKind
  name : String
  description : Option String
  expression : String
  taxable : Bool
  exempt : Bool
  exemptLimit : Option Decimal
  limitUnit : Option LimitUnit
  satKey : Option String
  fiscalYear : Option Int
  validFrom : Option Date
  validTo : Option Date
  version : Int
  active : Bool
  createdAt : Instant
  createdBy : Option String
  supersededAt : Option Instant
  supersededBy : Option String
  deriving DecidableEq, Repr

namespace FormulaVersion

/-- A window has a start and ends after it, and a positive limit has a unit. -/
def rule (v : FormulaVersion) : Option String :=
  let limit := match v.exemptLimit, v.limitUnit with
    | some d, none =>
      if Decimal.lt 0 d then some "exempt_limit_type is required when exempt_limit is set" else none
    | _, _ => none
  match v.validFrom, v.validTo with
  | none, some _ =>
    some "valid_to requires valid_from; a row without valid_from never expires"
  | some start, some stop =>
    if stop.orEqual start then some s!"valid_to ({stop}) must be after valid_from ({start})"
    else limit
  | _, none => limit

open Record in
def fieldReader : FieldReader FormulaVersion :=
  FormulaVersion.mk
    <$> required "id" text
    <*> required "company_id" nonemptyText
    <*> required "concept_code" nonemptyText
    <*> required "concept_type" (oneOf ConceptKind.ofName?)
    <*> required "name" nonemptyText
    <*> optional "description" text
    <*> required "expression" nonemptyText
    <*> defaulted "is_taxable" true truth
    <*> defaulted "is_exempt" false truth
    <*> optional "exempt_limit" (atLeast 0 decimal)
    <*> optional "exempt_limit_type" (oneOf LimitUnit.ofName?)
    <*> optional "sat_concept_key" text
    <*> optional "fiscal_year" (integerAtLeast 2000 (integerAtMost 2100 integer))
    <*> optional "valid_from" date
    <*> optional "valid_to" date
    <*> defaulted "version" 1 (integerAtLeast 1 integer)
    <*> defaulted "is_active" true truth
    <*> required "created_at" instant
    <*> optional "created_by" text
    <*> optional "superseded_at" instant
    <*> optional "superseded_by" text

def read : Record.Reader FormulaVersion := Record.record "CalculationFormula" fieldReader rule

def load : Json → Except Fault FormulaVersion := Record.load "CalculationFormula" read

def toFields (v : FormulaVersion) : Fields := [
  ("id", .text v.id),
  ("company_id", .text v.company),
  ("concept_code", .text v.concept),
  ("concept_type", .text v.kind.name),
  ("name", .text v.name),
  ("description", .optional .text v.description),
  ("expression", .text v.expression),
  ("is_taxable", .bool v.taxable),
  ("is_exempt", .bool v.exempt),
  ("exempt_limit", .optional .ofDecimal v.exemptLimit),
  ("exempt_limit_type", .optional (.text ·.name) v.limitUnit),
  ("sat_concept_key", .optional .text v.satKey),
  ("fiscal_year", .optional .int v.fiscalYear),
  ("valid_from", .optional (.text ·.text) v.validFrom),
  ("valid_to", .optional (.text ·.text) v.validTo),
  ("version", .int v.version),
  ("is_active", .bool v.active),
  ("created_at", .text v.createdAt.text),
  ("created_by", .optional .text v.createdBy),
  ("superseded_at", .optional (.text ·.text) v.supersededAt),
  ("superseded_by", .optional .text v.supersededBy)]

def toJson (v : FormulaVersion) : Json := .object v.toFields

end FormulaVersion

end Payroll
