import Payroll.Json.Number
import Payroll.Calendar.Date

/-!
The values that words of a command line denote.
-/

namespace Payroll.Command

open Text

def asText (s : String) : Option String := some s

def asInteger (s : String) : Option Int := (integerFromText s).toOption

/-- Whether every underscore stands between two digits. -/
def underscoresInside : List Char → Bool
  | '_' :: _ => false
  | [_] => true
  | a :: '_' :: b :: cs => a.isDigit && b.isDigit && underscoresInside (b :: cs)
  | _ :: b :: cs => underscoresInside (b :: cs)
  | [] => true

/-- Digits of every script become ASCII digits; underscores are kept. -/
def asciiDigits (cs : List Char) : List Char :=
  cs.map fun c =>
    match digitValue? c with
    | some n => Char.ofNat ('0'.toNat + n)
    | none => c

/-- A binary real by its decimal text, or one of the words for infinity and for no number. -/
def asReal (s : String) : Option Real64 :=
  let cs := asciiDigits (strip s.toList)
  if !underscoresInside cs then none
  else
    let signed := Decimal.readSign (cs.filter (· != '_'))
    let word := signed.2.map Char.toLower
    if word = "inf".toList ∨ word = "infinity".toList then some (.infinity signed.1)
    else if word = "nan".toList then some .nan
    else (Decimal.readUnsigned signed.1 signed.2).map Real64.ofDecimal

def realAmount (x : Real64) : Amount :=
  match Decimal.read x.text.toList with
  | some n => .exact n
  | none => .given (.real x)

/-- The form of a character in which letters have no case, as far as it is ASCII. -/
def caseless (c : Char) : List Char :=
  match c with
  | 'ß' | 'ẞ' => ['s', 's']
  | 'ſ' => ['s']
  | '\u212a' => ['k']
  | 'ﬀ' => ['f', 'f']
  | 'ﬁ' => ['f', 'i']
  | 'ﬂ' => ['f', 'l']
  | 'ﬃ' => ['f', 'f', 'i']
  | 'ﬄ' => ['f', 'f', 'l']
  | 'ﬅ' | 'ﬆ' => ['s', 't']
  | c => [c.toLower]

def sameWord (a b : String) : Bool := a.toList.flatMap caseless == b.toList.flatMap caseless

/-- One of the members of a list, by its name in any case. -/
def oneOf (all : List α) (name : α → String) (s : String) : Option α :=
  all.find? fun a => sameWord (name a) s

def isFrom (c least most : Char) : Bool := least ≤ c && c ≤ most

def asMonth : List Char → Option Nat
  | ['1', c] => if isFrom c '0' '2' then some (10 + Decimal.digitsValue [c]) else none
  | ['0', c] => if isFrom c '1' '9' then some (Decimal.digitsValue [c]) else none
  | [c] => if isFrom c '1' '9' then some (Decimal.digitsValue [c]) else none
  | _ => none

/-- A day may have a zero or a blank before its only digit. -/
def asDay : List Char → Option Nat
  | ['3', c] => if isFrom c '0' '1' then some (30 + Decimal.digitsValue [c]) else none
  | ['2', c] => (digitValue? c).map (20 + ·)
  | ['1', c] => (digitValue? c).map (10 + ·)
  | ['0', c] | [' ', c] | [c] =>
    if isFrom c '1' '9' then some (Decimal.digitsValue [c]) else none
  | _ => none

def asYear (cs : List Char) : Option Nat :=
  if cs.length = 4 then (cs.mapM digitValue?).map fun ds => ds.foldl (fun n d => 10 * n + d) 0
  else none

def asDate (s : String) : Option Date :=
  match s.splitOn "-" with
  | [y, m, d] => do
    let year ← asYear y.toList
    let month ← asMonth m.toList
    let day ← asDay d.toList
    Date.of? year month day
  | _ => none

def suchThat (test : α → Bool) (read : String → Option α) (s : String) : Option α :=
  (read s).filter test

def isNonnegative (x : Real64) : Bool := !x.isNegative

end Payroll.Command
