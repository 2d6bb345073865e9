import Payroll.Decimal.Text

/-!
Dates of the Gregorian calendar, their order and the days between them.
-/

namespace Payroll

def isLeap (year : Nat) : Bool :=
  year % 4 == 0 && (year % 100 != 0 || year % 400 == 0)

def daysInMonth (year month : Nat) : Nat :=
  match month with
  | 2 => if isLeap year then 29 else 28
  | 4 | 6 | 9 | 11 => 30
  | _ => 31

structure Date where
  year : Nat
  month : Nat
  day : Nat
  valid : 1 ≤ year ∧ 1 ≤ month ∧ month ≤ 12 ∧ 1 ≤ day ∧ day ≤ daysInMonth year month := by decide
  deriving DecidableEq, Repr

namespace Date

def of? (year month day : Nat) : Option Date :=
  if h : 1 ≤ year ∧ 1 ≤ month ∧ month ≤ 12 ∧ 1 ≤ day ∧ day ≤ daysInMonth year month then
    some ⟨year, month, day, h⟩
  else none

/-- The last date that can be written with a year of four digits. -/
def latest : Date := { year := 9999, month := 12, day := 31 }

def seasonal (d : Date) : Nat := d.month * 100 + d.day

/-- A number that orders dates. -/
def rank (d : Date) : Nat := d.year * 10000 + d.seasonal

def before (a b : Date) : Bool := a.rank < b.rank

def orEqual (a b : Date) : Bool := a.rank ≤ b.rank

theorem seasonal_lt (d : Date) : d.seasonal < 10000 := by
  obtain ⟨y, m, k, h⟩ := d
  have : daysInMonth y m ≤ 31 := by
    unfold daysInMonth; split <;> try split
    all_goals omega
  simp only [seasonal]; omega

def daysBeforeMonth (year : Nat) : Nat → Nat
  | 0 | 1 => 0
  | m + 2 => daysBeforeMonth year (m + 1) + daysInMonth year (m + 1)

def daysBeforeYear (year : Nat) : Nat :=
  (year - 1) * 365 + (year - 1) / 4 - (year - 1) / 100 + (year - 1) / 400

/-- Days since the beginning of the first year, whose first day has ordinal one. -/
def ordinal (d : Date) : Nat :=
  daysBeforeYear d.year + daysBeforeMonth d.year d.month + d.day

def daysUntil (a b : Date) : Int := (b.ordinal : Int) - a.ordinal

def firstOfYear (year : Nat) (h : 1 ≤ year) : Date :=
  ⟨year, 1, 1, by refine ⟨h, ?_⟩; simp [daysInMonth]⟩

/-- The same day of a later year; the last day of February where that year has no 29 February. -/
def addYears (d : Date) (n : Nat) : Date :=
  if h : d.day ≤ daysInMonth (d.year + n) d.month then
    ⟨d.year + n, d.month, d.day, by have := d.valid; omega⟩
  else
    ⟨d.year + n, d.month, 28, by
      have := d.valid
      have : 28 ≤ daysInMonth (d.year + n) d.month := by
        unfold daysInMonth; split <;> try split
        all_goals omega
      omega⟩

/-- The whole years from `a` to `b`, none when `b` is earlier. -/
def yearsUntil (a b : Date) : Nat :=
  if b.seasonal < a.seasonal then b.year - a.year - 1 else b.year - a.year

/-- The month and day of the `n`-th day of a year, counted from zero. -/
def monthAndDay (year : Nat) : Nat → Nat → Nat → Nat × Nat
  | 0, month, n => (month, n + 1)
  | fuel + 1, month, n =>
    if n < daysInMonth year month then (month, n + 1)
    else monthAndDay year fuel (month + 1) (n - daysInMonth year month)

/-- The date with an ordinal. The year is found among the two next to the average year's. -/
def ofOrdinal? (n : Nat) : Option Date :=
  let y := (n - 1) * 400 / 146097 + 1
  let year :=
    if n ≤ daysBeforeYear y then y - 1
    else if daysBeforeYear (y + 1) < n then y + 1
    else y
  let md := monthAndDay year 11 1 (n - daysBeforeYear year - 1)
  of? year md.1 md.2

def padded (width n : Nat) : List Char :=
  let ds := Decimal.digitsOf n
  List.replicate (width - ds.length) '0' ++ ds

def text (d : Date) : String :=
  String.ofList (padded 4 d.year ++ '-' :: (padded 2 d.month ++ '-' :: padded 2 d.day))

instance : ToString Date := ⟨text⟩

/-- The value of `width` digits at the front of a text, and the rest. -/
def readDigits (width : Nat) (cs : List Char) : Option (Nat × List Char) :=
  let ds := cs.take width
  if ds.length = width ∧ ds.all Char.isDigit then some (Decimal.digitsValue ds, cs.drop width)
  else none

/-- A date at the front of a text: year, month and day with all their digits. -/
def readFront (cs : List Char) : Option (Date × List Char) :=
  match readDigits 4 cs with
  | some (y, '-' :: r) =>
    match readDigits 2 r with
    | some (m, '-' :: r') =>
      match readDigits 2 r' with
      | some (d, rest) => (of? y m d).map (·, rest)
      | none => none
    | _ => none
  | _ => none

def ofText? (s : String) : Option Date :=
  match readFront s.toList with
  | some (d, []) => some d
  | _ => none

end Date

end Payroll
