import Payroll.Decimal.Text

/-!
What is wrong with the data of a record, and where.
-/

namespace Payroll

/-- A step into nested data. `keyItself` points at a key instead of at its value. -/
inductive Step
  | key (name : String)
  | index (n : Nat)
  | keyItself
  deriving DecidableEq, Repr

def Step.text : Step → String
  | .key name => name
  | .index n => toString n
  | .keyItself => "[key]"

inductive IssueKind
  | missing
  | unknownField
  | notText
  | textTooShort
  | notListed
  | notChoice
  | notDecimal
  | decimalText
  | notFinite
  | notInteger
  | integerText
  | integerSize
  | fraction
  | notTruth
  | truthText
  | notDate
  | dateText
  | dateWithTime
  | notInstant
  | instantText
  | instantNumber
  | notList
  | emptyList
  | notObject
  | notRecord (name : String)
  | notAbove (bound : String)
  | notAtLeast (bound : String)
  | notAtMost (bound : String)
  | rule (text : String)
  deriving DecidableEq, Repr

namespace IssueKind

def code : IssueKind → String
  | .missing => "missing"
  | .unknownField => "extra_forbidden"
  | .notText => "string_type"
  | .textTooShort => "string_too_short"
  | .notListed => "literal_error"
  | .notChoice => "enum"
  | .notDecimal => "decimal_type"
  | .decimalText => "decimal_parsing"
  | .notFinite => "finite_number"
  | .notInteger => "int_type"
  | .integerText => "int_parsing"
  | .integerSize => "int_parsing_size"
  | .fraction => "int_from_float"
  | .notTruth => "bool_type"
  | .truthText => "bool_parsing"
  | .notDate => "date_type"
  | .dateText => "date_from_datetime_parsing"
  | .dateWithTime => "date_from_datetime_inexact"
  | .notInstant => "datetime_type"
  | .instantText => "datetime_from_date_parsing"
  | .instantNumber => "datetime_parsing"
  | .notList => "list_type"
  | .emptyList => "too_short"
  | .notObject => "dict_type"
  | .notRecord _ => "model_type"
  | .notAbove _ => "greater_than"
  | .notAtLeast _ => "greater_than_equal"
  | .notAtMost _ => "less_than_equal"
  | .rule _ => "value_error"

def message : IssueKind → String
  | .missing => "Field required"
  | .unknownField => "Extra inputs are not permitted"
  | .notText => "Input should be a valid string"
  | .textTooShort => "String should have at least 1 character"
  | .notListed => "Input should be one of the listed values"
  | .notChoice => "Input should be one of the choices"
  | .notDecimal => "Decimal input should be an integer, float, string or Decimal object"
  | .decimalText => "Input should be a valid decimal"
  | .notFinite => "Input should be a finite number"
  | .notInteger => "Input should be a valid integer"
  | .integerText => "Input should be a valid integer, unable to parse string as an integer"
  | .integerSize =>
    "Unable to parse input string as an integer, exceeded maximum size"
  | .fraction => "Input should be a valid integer, got a number with a fractional part"
  | .notTruth => "Input should be a valid boolean"
  | .truthText => "Input should be a valid boolean, unable to interpret input"
  | .notDate => "Input should be a valid date"
  | .dateText => "Input should be a valid date or datetime"
  | .dateWithTime =>
    "Datetimes provided to dates should have zero time - e.g. be exact dates"
  | .notInstant => "Input should be a valid datetime"
  | .instantText => "Input should be a valid datetime or date"
  | .instantNumber => "Input should be a valid datetime"
  | .notList => "Input should be a valid list"
  | .emptyList => "List should have at least 1 item after validation, not 0"
  | .notObject => "Input should be a valid dictionary"
  | .notRecord name => s!"Input should be a valid dictionary or instance of {name}"
  | .notAbove bound => s!"Input should be greater than {bound}"
  | .notAtLeast bound => s!"Input should be greater than or equal to {bound}"
  | .notAtMost bound => s!"Input should be less than or equal to {bound}"
  | .rule text => s!"Value error, {text}"

end IssueKind

structure Issue where
  path : List Step
  kind : IssueKind
  deriving DecidableEq, Repr

namespace Issue

def place (i : Issue) : String := String.intercalate "." (i.path.map Step.text)

def under (s : Step) (i : Issue) : Issue := { i with path := s :: i.path }

def line (i : Issue) : String := s!"{i.place}: {i.kind.message}"

end Issue

def issuesHeadline (record : String) (issues : List Issue) : String :=
  let noun := if issues.length = 1 then "error" else "errors"
  s!"{issues.length} validation {noun} for {record}"

end Payroll
