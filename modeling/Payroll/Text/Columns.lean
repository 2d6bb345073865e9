/-!
Text set into columns. A text longer than its column is not cut.
-/

namespace Payroll.Text

def blanks (n : Nat) : String := String.ofList (List.replicate n ' ')

def padRight (width : Nat) (s : String) : String := s ++ blanks (width - s.length)

def padLeft (width : Nat) (s : String) : String := blanks (width - s.length) ++ s

end Payroll.Text
