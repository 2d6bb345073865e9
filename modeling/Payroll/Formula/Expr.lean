import Payroll.Formula.Vocabulary

/-!
The structure of a formula.
-/

namespace Payroll.Formula

inductive UnaryOp
  | minus
  | plus
  | not
  deriving DecidableEq, Repr

inductive BinaryOp
  | or
  | and
  | equal
  | notEqual
  | less
  | atMost
  | greater
  | atLeast
  | add
  | sub
  | mul
  | div
  | rem
  deriving DecidableEq, Repr

def UnaryOp.sign : UnaryOp → String
  | .minus => "-"
  | .plus => "+"
  | .not => "!"

def BinaryOp.sign : BinaryOp → String
  | .or => "||"
  | .and => "&&"
  | .equal => "=="
  | .notEqual => "!="
  | .less => "<"
  | .atMost => "<="
  | .greater => ">"
  | .atLeast => ">="
  | .add => "+"
  | .sub => "-"
  | .mul => "*"
  | .div => "/"
  | .rem => "%"

inductive Expr
  | number (d : Decimal)
  | var (v : Variable)
  | unary (op : UnaryOp) (operand : Expr)
  | binary (op : BinaryOp) (left right : Expr)
  | conditional (test yes no : Expr)
  | call (f : Function) (arguments : List Expr)
  deriving Repr, Inhabited

namespace Expr

mutual

/-- The variables in reading order, with repetitions. -/
def vars : Expr → List Variable
  | .number _ => []
  | .var v => [v]
  | .unary _ e => vars e
  | .binary _ l r => vars l ++ vars r
  | .conditional t y n => vars t ++ vars y ++ vars n
  | .call _ es => varsOfList es

def varsOfList : List Expr → List Variable
  | [] => []
  | e :: es => vars e ++ varsOfList es

/-- The called functions in reading order, with repetitions. -/
def functions : Expr → List Function
  | .number _ | .var _ => []
  | .unary _ e => functions e
  | .binary _ l r => functions l ++ functions r
  | .conditional t y n => functions t ++ functions y ++ functions n
  | .call f es => f :: functionsOfList es

def functionsOfList : List Expr → List Function
  | [] => []
  | e :: es => functions e ++ functionsOfList es

end

end Expr

end Payroll.Formula
