import Payroll.Formula.Vocabulary

/-!
Why the text of a formula is not accepted.
-/

namespace Payroll.Formula

def maxLength : Nat := 1000

def maxTokens : Nat := 256

def maxDepth : Nat := 32

inductive Expected
  | colon
  | closing
  deriving DecidableEq, Repr

def Expected.sign : Expected → String
  | .colon => ":"
  | .closing => ")"

/-- Positions count the characters before. An empty text found stands for the end. -/
inductive Rejection
  | empty
  | tooLong (length : Nat)
  | tooManyTokens
  | secondPoint (position : Nat)
  | trailingPoint (text : String) (position : Nat)
  | unexpectedCharacter (c : Char) (position : Nat)
  | tooDeep
  | expected (what : Expected) (found : String) (position : Nat)
  | unexpected (found : String) (position : Nat)
  | trailing (found : String) (position : Nat)
  | notCalled (name : String) (position : Nat)
  | unknownVariable (name : String) (position : Nat)
  | unknownFunction (name : String) (position : Nat)
  | arity (f : Function) (got : Nat)
  | undefinedName (name : String)
  | unreadableNumber (text : String)
  deriving DecidableEq, Repr

namespace Rejection

def found (text : String) : String := if text = "" then "end of expression" else text

def message : Rejection → String
  | .empty => "Expression is empty"
  | .tooLong n => s!"Expression is too long ({n} > {maxLength} characters)"
  | .tooManyTokens => s!"Expression has too many tokens (max {maxTokens})"
  | .secondPoint p => s!"Malformed number at position {p}"
  | .trailingPoint t p => s!"Malformed number '{t}' at position {p}"
  | .unexpectedCharacter c p => s!"Unexpected character '{c}' at position {p}"
  | .tooDeep => s!"Expression is nested too deeply (max {maxDepth})"
  | .expected w t p => s!"Expected '{w.sign}' at position {p}, found '{found t}'"
  | .unexpected t p => s!"Unexpected '{found t}' at position {p}"
  | .trailing t p => s!"Unexpected '{t}' at position {p}"
  | .notCalled n p => s!"Function '{n}' at position {p} must be called with arguments"
  | .unknownVariable n p => s!"Unknown variable '{n}' at position {p}"
  | .unknownFunction n p => s!"Unknown function '{n}' at position {p}"
  | .arity f n => s!"Function '{f.name}' takes {f.arityText} argument(s), got {n}"
  | .undefinedName n => s!"Unknown variable '{n}'"
  | .unreadableNumber t => s!"Unreadable number '{t}'"

end Rejection

end Payroll.Formula
