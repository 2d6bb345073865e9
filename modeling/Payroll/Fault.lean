import Payroll.Decimal.Context
import Payroll.Formula.Rejection
import Payroll.Json.Display
import Payroll.Record.Issue
import Payroll.Version.Conflict

/-!
Why an operation gives no result. Every cause has one constructor and one wording.
-/

namespace Payroll

/-- What is wrong with the rows of a bracket table; rows are counted from zero. -/
inductive TableIssue
  | noRows
  | lateStart (lower : Decimal)
  | unboundedInside (row : Nat)
  | notAbove (row : Nat) (next previous : Decimal)
  | overlap (row : Nat) (upper next : Decimal)
  | gap (row : Nat) (upper next : Decimal)
  | boundedEnd (upper : Decimal)
  deriving DecidableEq, Repr

def TableIssue.message : TableIssue → String
  | .noRows => "Table has no rows"
  | .lateStart d => s!"First row starts at {d}; must start at 0 or 0.01"
  | .unboundedInside i => s!"Row {i} is unbounded but is not the last row"
  | .notAbove i next previous =>
    s!"Row {i + 1} lower limit {next} is not above row {i} ({previous})"
  | .overlap i upper next => s!"Rows {i} and {i + 1} overlap: {upper} > {next}"
  | .gap i upper next => s!"Gap between rows {i} and {i + 1}: {upper} -> {next}"
  | .boundedEnd d => s!"Last row must be unbounded, has upper limit {d}"

inductive Misuse
  | selecting (value : Json)
  | position
  | pairing (place : Nat)
  | iterating (value : Json)
  | hashing (value : Json)
  | converting (value : Json)
  | asPath (value : Json)
  | matching (value : Json)
  | alreadyGiven (name : String)
  | repeated (name : String)
  | subtracting
  | ordering
  deriving Inhabited

def Misuse.message : Misuse → String
  | .selecting (.list _) => "list indices must be integers or slices, not str"
  | .selecting (.text _) => "string indices must be integers, not 'str'"
  | .selecting j => s!"'{j.kindName}' object is not subscriptable"
  | .position => "list index out of range"
  | .pairing i =>
    s!"cannot convert dictionary update sequence element #{i} to a sequence"
  | .iterating j => s!"'{j.kindName}' object is not iterable"
  | .hashing j => s!"unhashable type: '{j.kindName}'"
  | .converting j =>
    "int() argument must be a string, a bytes-like object or a real number, not "
      ++ s!"'{j.kindName}'"
  | .asPath j => s!"expected str, bytes or os.PathLike object, not {j.kindName}"
  | .matching j => s!"expected string or bytes-like object, got '{j.kindName}'"
  | .alreadyGiven n => s!"'{n}' is given twice"
  | .repeated n => s!"build_formula_context() got multiple values for argument '{n}'"
  | .subtracting => "unsupported operand type(s) for -: 'decimal.Decimal' and 'NoneType'"
  | .ordering => "can't compare offset-naive and offset-aware datetimes"

inductive Fault
  -- numbers and rounding
  | notNumber (given : Json)
  | notFinite (given : String)
  | arithmetic (s : Decimal.Signal)
  | digitLimit
  | integerLength
  | integerText (given : String)
  | integerTextLength (digits : Nat)
  | infiniteInteger
  | undefinedInteger
  | pairLength (place length : Nat)
  | precisionKind (given : Json)
  | precisionRange (given : Int)
  | unknownMethod (given : Json)
  | partCount (given : Json)
  -- formulas
  | rejected (rejections : List Formula.Rejection)
  | variableNotSet (name : String)
  | variableInvalid (name : String) (cause : Fault)
  | divisionByZero
  | evaluation (s : Decimal.Signal)
  | roundPlaces (given : Decimal)
  | zeroDenominator
  | unknownLimit (given : Json)
  | limitNeeds (limit name : String)
  | cannotRound (value : Decimal) (cause : Fault)
  | unknownOverrides (names : List String)
  -- taxes
  | badTable (name : String) (issues : List TableIssue)
  | negativeBase (base : Decimal)
  | negativeSbc (sbc : Decimal)
  | negativeDays (days : Int)
  | noRiskRate (given : Json)
  | noTables (year : Int) (file : String)
  | noIsrTable (period : String) (year : Int)
  | unknownSettlement (given : Json)
  | terminationBeforeHire (termination hire : Date)
  | negativeSettlement
  -- records
  | invalidRecord (record : String) (issues : List Issue)
  | unsafeKey (label : String) (given : Json)
  | dateText (given : String)
  -- formula versions
  | unknownFields (names : List String)
  | fixedFields (names : List String)
  | windowWithoutStart
  | conflicts (cs : List Version.Conflict)
  | staleRevision (company concept : String) (expected current : Int)
  | formulaNotFound (id : Json)
  | formulaSuperseded (id : String)
  | formulaReplacedEarlier (id : String)
  | formulaReferenced (id : String)
  -- audit trail
  | entryNotFound (id : String)
  | entryExists (id : String)
  | unsupportedConcept (name : String)
  -- data of an unexpected shape
  | missingKey (key : String)
  | misuse (m : Misuse)
  | noAttribute (value : Json) (name : String)
  deriving Inhabited

/-- What fails in arithmetic: an operation on decimals, or an infinite real that has to be an
integer. -/
inductive ArithmeticFailure
  | signal (s : Decimal.Signal)
  | infinite
  deriving DecidableEq

/-- The families of causes that callers tell apart. -/
inductive FaultKind
  | value
  | misuse
  | attribute
  | key
  | decimal (cause : ArithmeticFailure)
  | rejectedFormula
  | evaluation
  | bracketTable
  | noTables
  | imssRate
  | record
  | conflict
  | noFormula
  | immutable
  | noEntry
  | entryExists
  deriving DecidableEq

namespace Fault

def ofRejection : Formula.Rejection → Fault
  | .unreadableNumber _ => .arithmetic .conversionSyntax
  | r => .rejected [r]

def kind : Fault → FaultKind
  | .arithmetic s => .decimal (.signal s)
  | .infiniteInteger => .decimal .infinite
  | .rejected _ => .rejectedFormula
  | .variableNotSet _ | .variableInvalid .. | .divisionByZero | .evaluation _ | .roundPlaces _
  | .zeroDenominator | .unknownLimit _ | .limitNeeds .. | .cannotRound .. => .evaluation
  | .badTable .. => .bracketTable
  | .noRiskRate _ => .imssRate
  | .noTables .. | .noIsrTable .. => .noTables
  | .invalidRecord .. => .record
  | .conflicts _ | .staleRevision .. => .conflict
  | .formulaNotFound _ => .noFormula
  | .formulaSuperseded _ | .formulaReplacedEarlier _ | .formulaReferenced _ => .immutable
  | .entryNotFound _ => .noEntry
  | .entryExists _ => .entryExists
  | .missingKey _ => .key
  | .misuse _ => .misuse
  | .noAttribute .. => .attribute
  | _ => .value

/-- Whether a refused value is the cause; a refused record is such a value. -/
def isValueFault (f : Fault) : Bool := f.kind = .value || f.kind = .record

def isFormulaFault (f : Fault) : Bool := f.kind = .rejectedFormula || f.kind = .evaluation

def signalClass : Decimal.Signal → String
  | .divisionByZero => "DivisionByZero"
  | .overflow => "Overflow"
  | _ => "InvalidOperation"

def signalName : ArithmeticFailure → String
  | .signal s => signalClass s
  | .infinite => "OverflowError"

def conditionName : Decimal.Signal → String
  | .conversionSyntax => "ConversionSyntax"
  | .divisionImpossible => "DivisionImpossible"
  | .divisionUndefined => "DivisionUndefined"
  | s => signalClass s

/-- The list of conditions that a signal stands for. -/
def signalMessage (s : Decimal.Signal) : String := s!"[<class 'decimal.{conditionName s}'>]"

def commaList (names : List String) : String := String.intercalate ", " names

def semicolonList (parts : List String) : String := String.intercalate "; " parts

def integerLimit : String := "Exceeds the limit (4300 digits) for integer string conversion"

def integerAdvice : String := "use sys.set_int_max_str_digits() to increase the limit"

def message : Fault → String
  | .notNumber j => s!"Not a number: {j.shown}"
  | .notFinite t => s!"Non-finite value: {t}"
  | .arithmetic s => signalMessage s
  | .digitLimit => "valid range for prec is [1, MAX_PREC]"
  | .integerLength => s!"{integerLimit}; {integerAdvice}"
  | .infiniteInteger => "cannot convert float infinity to integer"
  | .undefinedInteger => "cannot convert float NaN to integer"
  | .integerTextLength n => s!"{integerLimit}: value has {n} digits; {integerAdvice}"
  | .pairLength i n =>
    s!"dictionary update sequence element #{i} has length {n}; 2 is required"
  | .integerText t => s!"invalid literal for int() with base 10: {Json.shownText t}"
  | .precisionKind j => s!"Precision must be an integer, got {j.shown}"
  | .precisionRange n => s!"Precision must be between 0 and 10, got {n}"
  | .unknownMethod j => s!"{j.shown} is not a valid RoundingMethod"
  | .partCount j => s!"parts must be a positive integer, got {j.shown}"
  | .rejected rs => semicolonList (rs.map Formula.Rejection.message)
  | .variableNotSet n => s!"Variable '{n}' is not set"
  | .variableInvalid n cause => s!"Variable '{n}': {message cause}"
  | .divisionByZero => "Division by zero"
  | .evaluation s => s!"Arithmetic error: {signalClass s}"
  | .roundPlaces d => s!"round() precision must be an integer between 0 and 10, got {d}"
  | .zeroDenominator => "proportional() denominator is zero"
  | .unknownLimit j => s!"Unknown exempt limit type: {j.shown}"
  | .limitNeeds l v => s!"Exempt limit type {l} needs '{v}' in the context"
  | .cannotRound d cause => s!"Cannot round {d}: {message cause}"
  | .unknownOverrides ns => s!"Unknown formula variables: {commaList ns}"
  | .badTable n is => s!"Invalid bracket table {n}: {semicolonList (is.map TableIssue.message)}"
  | .negativeBase d => s!"Taxable base cannot be negative: {d}"
  | .negativeSbc d => s!"SBC cannot be negative: {d}"
  | .negativeDays n => s!"Contribution days cannot be negative: {n}"
  | .noRiskRate j => s!"No riesgo de trabajo rate configured for {j.plain}"
  | .noTables y f => s!"No fiscal tables found for {y} or earlier. Add {f}"
  | .noIsrTable p y => s!"No ISR table for {p} in {y}"
  | .unknownSettlement j =>
    s!"Unknown liquidation type {j.shown}; expected one of FINIQUITO, LIQUIDACION, RESCISION"
  | .terminationBeforeHire t h => s!"Termination date {t} must be after hire date {h}"
  | .negativeSettlement => "Pending days and deductions cannot be negative"
  | .invalidRecord r is => issuesHeadline r is
  | .unsafeKey l j => s!"Invalid {l}: {j.shown}"
  | .dateText t => s!"Invalid isoformat string: {Json.shownText t}"
  | .unknownFields ns => s!"Unknown formula fields: {commaList ns}"
  | .fixedFields ns => s!"Fields cannot be changed by a new version: {commaList ns}"
  | .windowWithoutStart => "valid_to requires valid_from"
  | .conflicts cs =>
    s!"Formula version conflict: {semicolonList (cs.map Version.Conflict.describe)}"
  | .staleRevision company concept expected current =>
    s!"{company}/{concept} changed while writing (revision {expected} -> {current}); retry"
  | .formulaNotFound j => s!"Formula not found: {j.plain}"
  | .formulaSuperseded i => s!"Formula {i} is superseded and cannot be deleted"
  | .formulaReplacedEarlier i => s!"Formula {i} replaced an earlier version and cannot be deleted"
  | .formulaReferenced i => s!"Formula {i} is referenced by audit entries"
  | .entryNotFound i => s!"Audit entry not found: {i}"
  | .entryExists i => s!"Audit entry {i} already exists"
  | .unsupportedConcept n => s!"Unsupported concept type {n}"
  | .missingKey k => Json.shownText k
  | .misuse m => m.message
  | .noAttribute j n => s!"'{j.kindName}' object has no attribute '{n}'"

end Fault

/-- Arithmetic signals are faults of the operation that does the arithmetic. -/
instance : MonadLift (Except Decimal.Signal) (Except Fault) where
  monadLift
    | .ok a => .ok a
    | .error s => .error (.arithmetic s)

/-- Goes on only if something holds. -/
def ensure (holds : Bool) (f : Fault) : Except Fault Unit :=
  if holds then .ok () else .error f

/-- Goes on only with something that is there. -/
def existing {α : Type} (f : Fault) : Option α → Except Fault α
  | some a => .ok a
  | none => .error f

end Payroll
