import Payroll.Calendar.Date
import Payroll.Real64

/-!
Points in time: a date with a time of day, and the offset of that clock from universal time.
-/

namespace Payroll

/-- The offset counts minutes and is less than a day; a local time has none. -/
structure Instant where
  date : Date
  hour : Nat
  minute : Nat
  second : Nat
  micro : Nat
  offset : Option Int
  valid : date.year ≤ 9999 ∧ hour < 24 ∧ minute < 60 ∧ second < 60 ∧ micro < 1000000
    ∧ offset.all (fun m => m.natAbs < 1440) := by decide
  deriving DecidableEq, Repr

namespace Instant

open Date

def of? (date : Date) (hour minute second micro : Nat) (offset : Option Int) : Option Instant :=
  if h : date.year ≤ 9999 ∧ hour < 24 ∧ minute < 60 ∧ second < 60 ∧ micro < 1000000
      ∧ offset.all (fun m => m.natAbs < 1440) then
    some ⟨date, hour, minute, second, micro, offset, h⟩
  else none

/-- The same date and time of day on the clock of universal time. -/
def universal (t : Instant) : Instant :=
  { t with
    offset := some 0
    valid := by
      obtain ⟨hd, hh, hm, hs, hu, _⟩ := t.valid
      exact ⟨hd, hh, hm, hs, hu, by decide⟩ }

/-- Microseconds since the beginning of the first year, in universal time. -/
def micros (t : Instant) : Int :=
  let minutes : Int := ((t.date.ordinal * 24 + t.hour) * 60 + t.minute : Nat) - t.offset.getD 0
  (minutes * 60 + t.second) * 1000000 + t.micro

/-- The beginning of 1970 in microseconds. -/
def unixEpoch : Int := 719163 * 86400000000

/-- Seconds since the beginning of 1970, as the binary real nearest to them in units of the least
one. Instants centuries away from it have one timestamp when only a few microseconds lie between
them. -/
def timestamp (t : Instant) : Int := Real64.signedUnitsOf (t.micros - unixEpoch) 1000000

def isMidnight (t : Instant) : Bool :=
  t.hour == 0 && t.minute == 0 && t.second == 0 && t.micro == 0

def clockText (t : Instant) : List Char :=
  padded 2 t.hour ++ ':' :: (padded 2 t.minute ++ ':' :: (padded 2 t.second ++
    if t.micro = 0 then [] else '.' :: padded 6 t.micro))

def offsetText (minutes : Int) : List Char :=
  (if minutes < 0 then '-' else '+') ::
    (padded 2 (minutes.natAbs / 60) ++ ':' :: padded 2 (minutes.natAbs % 60))

def textWith (separator : Char) (zone : Int → List Char) (t : Instant) : String :=
  String.ofList (t.date.text.toList ++ separator :: (t.clockText ++
    match t.offset with
    | some minutes => zone minutes
    | none => []))

/-- The form of records, in which universal time is marked by `Z`. -/
def text (t : Instant) : String :=
  textWith 'T' (fun m => if m = 0 then ['Z'] else offsetText m) t

/-- The form with a numeric offset. -/
def isoText (t : Instant) : String := textWith 'T' offsetText t

/-- The form shown to people, with a blank before the time. -/
def spacedText (t : Instant) : String := textWith ' ' offsetText t

/-- A fraction of a second; digits past the sixth are dropped. -/
def readFraction (cs : List Char) : Option (Nat × List Char) :=
  match cs with
  | c :: r =>
    if c = '.' ∨ c = ',' then
      let ds := r.takeWhile Char.isDigit
      if ds = [] then none
      else
        let micros := Decimal.digitsValue ((ds ++ List.replicate 6 '0').take 6)
        some (micros, r.dropWhile Char.isDigit)
    else some (0, cs)
  | [] => some (0, [])

def readZone (cs : List Char) : Option (Option Int) :=
  match cs with
  | [] => some none
  | ['Z'] | ['z'] => some (some 0)
  | c :: r =>
    if c = '+' ∨ c = '-' then
      match readDigits 2 r with
      | some (h, r') =>
        let r' := match r' with
          | ':' :: r'' => r''
          | r'' => r''
        match readDigits 2 r' with
        | some (m, []) =>
          if h < 24 ∧ m < 60 then
            some (some (if c = '-' then -((h * 60 + m : Nat) : Int) else (h * 60 + m : Nat)))
          else none
        | _ => none
      | none => none
    else none

/-- Seconds with a fraction, if the text goes on with a colon. -/
def readSeconds (cs : List Char) : Option ((Nat × Nat) × List Char) :=
  match cs with
  | ':' :: r =>
    match readDigits 2 r with
    | some (s, r') => (readFraction r').map fun f => ((s, f.1), f.2)
    | none => none
  | r => some ((0, 0), r)

def readClock (date : Date) (cs : List Char) : Option Instant :=
  match readDigits 2 cs with
  | some (h, ':' :: r) =>
    match readDigits 2 r with
    | some (m, r') =>
      match readSeconds r' with
      | some ((s, us), r'') =>
        match readZone r'' with
        | some zone => of? date h m s us zone
        | none => none
      | none => none
    | none => none
  | _ => none

/-- A date, one of `T`, `t`, `_` or a blank, and a time with an optional offset. -/
def ofText? (s : String) : Option Instant :=
  match readFront s.toList with
  | some (d, c :: r) => if c = 'T' ∨ c = 't' ∨ c = ' ' ∨ c = '_' then readClock d r else none
  | _ => none

def startOf? (d : Date) : Option Instant := of? d 0 0 0 0 none

/-- The last second that can be written with a year of four digits. -/
def latest : Instant :=
  { date := Date.latest, hour := 23, minute := 59, second := 59, micro := 0, offset := some 0 }

/-- The local time a number of microseconds after the beginning of 1970. -/
def ofUnixMicros? (n : Int) : Option Instant :=
  let day := n.fdiv 86400000000
  let rest := (n.fmod 86400000000).toNat
  let date := if day + 719163 < 1 then none else ofOrdinal? (day + 719163).toNat
  date.bind fun d =>
    of? d (rest / 3600000000) (rest / 60000000 % 60) (rest / 1000000 % 60) (rest % 1000000) none

end Instant

end Payroll
