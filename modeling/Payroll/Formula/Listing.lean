import Payroll.Formula.Token

/-!
The tokens of a formula as they are listed: each with its kind, its text and its position, and the end
of the formula behind them.
-/

namespace Payroll.Formula

inductive Kind
  | number
  | word
  | operator
  | opening
  | closing
  | comma
  | question
  | colon
  | ending
  deriving DecidableEq, Repr

def Kind.name : Kind → String
  | .number => "NUMBER"
  | .word => "IDENT"
  | .operator => "OP"
  | .opening => "LPAREN"
  | .closing => "RPAREN"
  | .comma => "COMMA"
  | .question => "QUESTION"
  | .colon => "COLON"
  | .ending => "EOF"

def Lexeme.kind : Lexeme → Kind
  | .number _ => .number
  | .word _ => .word
  | .operator _ => .operator
  | .opening => .opening
  | .closing => .closing
  | .comma => .comma
  | .question => .question
  | .colon => .colon

/-- Positions count the characters before. -/
structure Listed where
  kind : Kind
  text : String
  position : Nat
  deriving DecidableEq, Repr

namespace Listed

def ofToken (t : Token) : Listed := ⟨t.lexeme.kind, t.text, t.position⟩

/-- The end of a text is listed like a token without a text of its own. -/
def ending (s : String) : Listed := ⟨.ending, "", s.length⟩

/-- The position behind the text. -/
def stop (t : Listed) : Nat := t.position + t.text.length

end Listed

def listing (s : String) : Except Rejection (List Listed) := do
  pure ((← Token.tokens s.toList).map Listed.ofToken ++ [Listed.ending s])

end Payroll.Formula
