import Payroll.Amount
import Payroll.Calendar.Instant
import Payroll.Record.Issue

/-!
Single values of records. Each reader takes the spellings that denote its kind of value and says
what is wrong with the others.
-/

namespace Payroll

/-- Data that was read, or everything that is wrong with it. -/
abbrev Checked (α : Type) := Except (List Issue) α

namespace Record

open Decimal (Numeral)

abbrev Reader (α : Type) := Json → Checked α

def refuse (kind : IssueKind) : Checked α := .error [⟨[], kind⟩]

def text : Reader String
  | .text s => .ok s
  | _ => refuse .notText

def nonemptyText : Reader String
  | .text s => if s = "" then refuse .textTooShort else .ok s
  | _ => refuse .notText

def oneOf (word? : String → Option α) : Reader α
  | .text s =>
    match word? s with
    | some a => .ok a
    | none => refuse .notListed
  | _ => refuse .notListed

def choice (word? : String → Option α) : Reader α
  | .text s =>
    match word? s with
    | some a => .ok a
    | none => refuse .notChoice
  | _ => refuse .notChoice

def ofNumeral : Option Numeral → Checked Decimal
  | some (.finite d) => .ok d
  | some _ => refuse .notFinite
  | none => refuse .decimalText

def decimal : Reader Decimal
  | .int n => ofNumeral ((Decimal.ofInteger? n).map .finite)
  | .real x => ofNumeral (Decimal.read x.text.toList)
  | .text s => ofNumeral (Decimal.read s.toList)
  | _ => refuse .notDecimal

/-- Digits in which single underscores may stand between two digits. -/
def groupedDigits : List Char → Option (List Char)
  | [] => none
  | [c] => if c.isDigit then some [c] else none
  | c :: '_' :: cs => if c.isDigit then (groupedDigits cs).map (c :: ·) else none
  | c :: cs => if c.isDigit then (groupedDigits cs).map (c :: ·) else none

/-- An integer as text: a sign, digits, and a fraction of zeros. -/
def integerOfText (s : String) : Option Int :=
  let signed := Decimal.readSign (Text.strip s.toList)
  let fraction := signed.2.dropWhile (· != '.')
  if fraction.tail.all (· == '0') then
    (groupedDigits (signed.2.takeWhile (· != '.'))).map fun ds =>
      if signed.1 then -(Decimal.digitsValue ds) else Decimal.digitsValue ds
  else none

/-- Longer texts of integers are not read. -/
def maxIntegerText : Nat := 4300

def integer : Reader Int
  | .int n => .ok n
  | .bool b => .ok (if b then 1 else 0)
  | .real (.finite d) =>
    match (Real64.finite d).integer? with
    | some n => if n.natAbs < 1 <<< 63 then .ok n else refuse .integerSize
    | none => refuse .fraction
  | .real _ => refuse .notFinite
  | .text s =>
    if maxIntegerText < s.length then refuse .integerSize
    else
      match integerOfText s with
      | some n => .ok n
      | none => refuse .integerText
  | _ => refuse .notInteger

/-- The words for true and false, in any case. -/
def truthOfText (s : String) : Option Bool :=
  let word := String.ofList (s.toList.map Char.toLower)
  if ["1", "on", "t", "true", "y", "yes"].contains word then some true
  else if ["0", "off", "f", "false", "n", "no"].contains word then some false
  else none

def truthOfInteger (n : Int) : Checked Bool :=
  if n = 0 then .ok false else if n = 1 then .ok true else refuse .truthText

def truth : Reader Bool
  | .bool b => .ok b
  | .int n => truthOfInteger n
  | .real x =>
    match x.integer? with
    | some n => truthOfInteger n
    | none => refuse .notTruth
  | .text s =>
    match truthOfText s with
    | some b => .ok b
    | none => refuse .truthText
  | _ => refuse .notTruth

/-- Numbers of seconds above this size count milliseconds. -/
def secondsLimit : Decimal := 20000000000

/-- The point in universal time that a number of seconds after the beginning of 1970 stands for. -/
def instantOfNumber? (d : Decimal) : Option Instant :=
  let size : Decimal := { d with negative := false }
  if 13 < d.adjusted then none
  else
    let exponent := if secondsLimit.lt size then d.exponent + 3 else d.exponent + 6
    (Instant.ofUnixMicros? (Decimal.truncate { d with exponent })).map Instant.universal

def numberOfText? (s : String) : Option Decimal :=
  match Decimal.readAscii s.toList with
  | some (.finite d) => if s.toList.all fun c => c != 'e' && c != 'E' then some d else none
  | _ => none

/-- A date with a time, a date alone, or a number of seconds. -/
def instantOfText? (s : String) : Option Instant :=
  match Instant.ofText? s with
  | some t => some t
  | none =>
    match Date.ofText? s with
    | some d => Instant.startOf? d
    | none => (numberOfText? s).bind instantOfNumber?

def instantOr (kind : IssueKind) : Option Instant → Checked Instant
  | some t => .ok t
  | none => refuse kind

def instant : Reader Instant
  | .text s => instantOr .instantText (instantOfText? s)
  | .int n => instantOr .instantNumber (instantOfNumber? (.ofInt n))
  | .real (.finite d) => instantOr .instantNumber (instantOfNumber? d)
  | .real _ => refuse .instantNumber
  | _ => refuse .notInstant

/-- A point in time stands for its date if it is the beginning of the day. -/
def dateOfInstant : Option Instant → Checked Date
  | some t => if t.isMidnight then .ok t.date else refuse .dateWithTime
  | none => refuse .dateText

def date : Reader Date
  | .text s =>
    match Date.ofText? s with
    | some d => .ok d
    | none => dateOfInstant (instantOfText? s)
  | .int n => dateOfInstant (instantOfNumber? (.ofInt n))
  | .real (.finite d) => dateOfInstant (instantOfNumber? d)
  | .real _ => refuse .dateText
  | _ => refuse .notDate

def anything : Reader Json := .ok

def fields : Reader Fields
  | .object fs => .ok fs
  | _ => refuse .notObject

/-- A reader whose values must pass a bound. -/
def bounded (read : Reader α) (holds : α → Bool) (kind : IssueKind) : Reader α := fun j =>
  match read j with
  | .ok a => if holds a then .ok a else refuse kind
  | .error is => .error is

def atLeast (low : Decimal) (read : Reader Decimal) : Reader Decimal :=
  bounded read low.le (.notAtLeast low.text)

def atMost (high : Decimal) (read : Reader Decimal) : Reader Decimal :=
  bounded read (·.le high) (.notAtMost high.text)

def above (low : Decimal) (read : Reader Decimal) : Reader Decimal :=
  bounded read low.lt (.notAbove low.text)

def integerAtLeast (low : Int) (read : Reader Int) : Reader Int :=
  bounded read (fun n => decide (low ≤ n)) (.notAtLeast (toString low))

def integerAtMost (high : Int) (read : Reader Int) : Reader Int :=
  bounded read (fun n => decide (n ≤ high)) (.notAtMost (toString high))

def integerAbove (low : Int) (read : Reader Int) : Reader Int :=
  bounded read (fun n => decide (low < n)) (.notAbove (toString low))

end Record

end Payroll
