import Payroll.Amount

/-!
Identifiers that name files: letters, digits, points, underscores and hyphens of ASCII.
-/

namespace Payroll.Key

def isKeyChar (c : Char) : Bool := c.isAlphanum || c == '_' || c == '.' || c == '-'

/-- The text before a line break that ends it. -/
def withoutLineBreak (cs : List Char) : List Char :=
  if cs.getLast? = some '\n' then cs.dropLast else cs

/-- One line break may end an identifier; the names of the current and the parent directory are
no identifiers. -/
def isSafe (s : String) : Bool :=
  let cs := withoutLineBreak s.toList
  cs != [] && cs.all isKeyChar && s != "." && s != ".."

def check (label : String) : Json → Except Fault String
  | .text s => if isSafe s then .ok s else .error (.unsafeKey label (.text s))
  | j => if j.truthy then .error (.misuse (.matching j)) else .error (.unsafeKey label j)

end Payroll.Key
