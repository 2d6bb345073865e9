import Payroll.Decimal.Basic
import Payroll.Text.CharClass

/-!
Decimal numbers as text. Writing keeps the exponent: digits with a point as long as the exponent
is not positive and the leading digit stands at most six places behind the point, else scientific
notation. Reading accepts what writing produces, and the other usual spellings.
-/

namespace Payroll.Decimal

open Text

def digitsOf (n : Nat) : List Char := Nat.toDigits 10 n

def exponentText (e : Int) : List Char :=
  'E' :: (if e < 0 then '-' else '+') :: digitsOf e.natAbs

/-- The digits with a point after the first `point` of them. -/
def positional (ds : List Char) (point : Int) : List Char :=
  if point ≤ 0 then '0' :: '.' :: (List.replicate point.natAbs '0' ++ ds)
  else if ds.length ≤ point.toNat then ds
  else ds.take point.toNat ++ '.' :: ds.drop point.toNat

def magnitudeText (d : Decimal) : List Char :=
  let ds := digitsOf d.coefficient
  let point : Int := d.exponent + ds.length
  if d.exponent ≤ 0 ∧ -6 < point then positional ds point
  else positional ds 1 ++ exponentText (point - 1)

def text (d : Decimal) : String :=
  String.ofList (if d.negative then '-' :: d.magnitudeText else d.magnitudeText)

instance : ToString Decimal := ⟨text⟩

inductive Numeral
  | finite (d : Decimal)
  | infinity (negative : Bool)
  | nan
  deriving DecidableEq, Repr

/-- Exponents of the numbers that text can denote. -/
def maxReadable : Int := 999999999999999999

def minReadable : Int := -1999999999999999997

def readable (d : Decimal) : Bool :=
  d.adjusted ≤ maxReadable && minReadable ≤ d.exponent

/-- An integer as a number, if text can denote it. -/
def ofInteger? (n : Int) : Option Decimal :=
  if (ofInt n).readable then some (ofInt n) else none

def digitsValue (ds : List Char) : Nat :=
  ds.foldl (fun n c => 10 * n + (c.toNat - '0'.toNat)) 0

/-- Decimal digits of every script become ASCII digits, and underscores vanish. -/
def asciiForm : List Char → Option (List Char)
  | [] => some []
  | c :: cs =>
    if c = '_' then asciiForm cs
    else if 0 < c.toNat ∧ c.toNat < 128 then (asciiForm cs).map (c :: ·)
    else match digitValue? c with
      | some n => (asciiForm cs).map (Char.ofNat ('0'.toNat + n) :: ·)
      | none => none

def readSign : List Char → Bool × List Char
  | '-' :: cs => (true, cs)
  | '+' :: cs => (false, cs)
  | cs => (false, cs)

/-- The exponent part: nothing, or a mark, an optional sign and digits. -/
def readExponent : List Char → Option Int
  | [] => some 0
  | c :: cs =>
    if c = 'e' ∨ c = 'E' then
      let s := readSign cs
      if s.2 ≠ [] ∧ s.2.all Char.isDigit then
        some (if s.1 then -(digitsValue s.2) else digitsValue s.2)
      else none
    else none

/-- Digits with at most one point, then an exponent part. -/
def readUnsigned (negative : Bool) (cs : List Char) : Option Decimal :=
  let whole := cs.takeWhile Char.isDigit
  let rest := cs.dropWhile Char.isDigit
  let fraction := match rest with
    | '.' :: r => r.takeWhile Char.isDigit
    | _ => []
  let tail := match rest with
    | '.' :: r => r.dropWhile Char.isDigit
    | r => r
  if whole = [] ∧ fraction = [] then none
  else
    match readExponent tail with
    | none => none
    | some e =>
      let d : Decimal := ⟨negative, digitsValue (whole ++ fraction), e - fraction.length⟩
      if d.readable then some d else none

def isNan (word : List Char) : Bool :=
  let w := if word.head? = some 's' then word.tail else word
  w.take 3 == ['n', 'a', 'n'] && (w.drop 3).all Char.isDigit

def readAscii (cs : List Char) : Option Numeral :=
  let s := readSign cs
  let word := s.2.map Char.toLower
  if word = "inf".toList ∨ word = "infinity".toList then some (.infinity s.1)
  else if isNan word then some .nan
  else (readUnsigned s.1 s.2).map .finite

/-- Surrounding white space is ignored. -/
def read (cs : List Char) : Option Numeral :=
  (asciiForm (strip cs)).bind readAscii

def ofText? (s : String) : Option Decimal :=
  match read s.toList with
  | some (.finite d) => some d
  | _ => none

def Numeral.text : Numeral → String
  | .finite d => d.text
  | .infinity true => "-Infinity"
  | .infinity false => "Infinity"
  | .nan => "NaN"

end Payroll.Decimal
