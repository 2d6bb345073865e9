import Payroll.Record.Reader

/-!
Rows of tables that assign terms to ranges of a base.
-/

namespace Payroll

/-- The terms for a base from `lower` to `upper`; a row without `upper` has no end. -/
structure Bracket (α : Type) where
  lower : Decimal
  upper : Option Decimal
  terms : α
  deriving DecidableEq, Repr

/-- A fixed fee and a rate on what exceeds the lower limit. -/
structure IsrTerms where
  fixedFee : Decimal
  rate : Decimal
  deriving DecidableEq, Repr

structure SubsidyTerms where
  amount : Decimal
  deriving DecidableEq, Repr

abbrev IsrBracket := Bracket IsrTerms

abbrev SubsidyBracket := Bracket SubsidyTerms

open Record (FieldReader)

class BracketTerms (α : Type) where
  recordName : String
  reader : FieldReader α
  toFields : α → Fields

open Record in
instance : BracketTerms IsrTerms where
  recordName := "IsrBracket"
  reader := IsrTerms.mk
    <$> required "fixed_fee" (atLeast 0 decimal)
    <*> required "rate_on_excess" (atLeast 0 (atMost 1 decimal))
  toFields t := [("fixed_fee", .ofDecimal t.fixedFee), ("rate_on_excess", .ofDecimal t.rate)]

open Record in
instance : BracketTerms SubsidyTerms where
  recordName := "SubsidyBracket"
  reader := SubsidyTerms.mk <$> required "subsidy_amount" (atLeast 0 decimal)
  toFields t := [("subsidy_amount", .ofDecimal t.amount)]

namespace Bracket

variable {α : Type} [BracketTerms α]

/-- A row does not end below its start. -/
def rule (b : Bracket α) : Option String :=
  match b.upper with
  | none => none
  | some u => if u.lt b.lower then some s!"upper_limit {u} < lower_limit {b.lower}" else none

open Record in
def fieldReader : FieldReader (Bracket α) :=
  Bracket.mk
    <$> required "lower_limit" (atLeast 0 decimal)
    <*> optional "upper_limit" decimal
    <*> BracketTerms.reader

def read : Record.Reader (Bracket α) :=
  Record.record (BracketTerms.recordName α) fieldReader rule

def load : Json → Except Fault (Bracket α) := Record.load (BracketTerms.recordName α) read

def toFields (b : Bracket α) : Fields :=
  [("lower_limit", .ofDecimal b.lower), ("upper_limit", .optional .ofDecimal b.upper)]
    ++ BracketTerms.toFields b.terms

def toJson (b : Bracket α) : Json := .object b.toFields

def contains (b : Bracket α) (base : Decimal) : Bool :=
  b.lower.le base && match b.upper with
    | none => true
    | some u => base.le u

end Bracket

end Payroll
