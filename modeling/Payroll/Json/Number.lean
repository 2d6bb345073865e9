import Payroll.Record.Scalar

/-!
Integers from data of any kind. Fractions are cut off, and text has to spell an integer.
-/

namespace Payroll

open Text

/-- Digits of any script in which single underscores may stand between two digits. -/
def groupedDigitValues : List Char → Option (List Nat)
  | [] => none
  | [c] => (digitValue? c).map ([·])
  | c :: '_' :: cs => (digitValue? c).bind fun d => (groupedDigitValues cs).map (d :: ·)
  | c :: cs => (digitValue? c).bind fun d => (groupedDigitValues cs).map (d :: ·)

def integerFromText (s : String) : Except Fault Int :=
  let signed := Decimal.readSign (strip s.toList)
  match groupedDigitValues signed.2 with
  | none => .error (.integerText s)
  | some ds =>
    if Record.maxIntegerText < ds.length then .error (.integerTextLength ds.length)
    else
      let n : Nat := ds.foldl (fun n d => 10 * n + d) 0
      .ok (if signed.1 then -(n : Int) else n)

def Json.toInteger : Json → Except Fault Int
  | .int n => .ok n
  | .bool b => .ok (if b then 1 else 0)
  | .real (.finite d) => .ok d.truncate
  | .real (.infinity _) => .error .infiniteInteger
  | .real .nan => .error .undefinedInteger
  | .text s => integerFromText s
  | j => .error (.misuse (.converting j))

end Payroll
