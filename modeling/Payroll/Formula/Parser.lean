import Payroll.Formula.Expr
import Payroll.Formula.Token

/-!
The grammar of formulas, from the loosest level to the tightest:

* a conditional `test ? yes : no`, nesting to the right;
* `||`, `&&`, `==` and `!=`, the four comparisons, `+` and `-`, then `*`, `/` and `%`, each level
  grouping to the left;
* the signs `-`, `+` and `!` before an operand;
* a number, a variable, a function with its arguments, or a conditional in parentheses.

Every conditional and every sign is one level of nesting, of which only so many are open at once.
-/

namespace Payroll.Formula

/-- A reader of the front of a token list; it gives what it read and the tokens left. -/
abbrev Parser (α : Type) := List Token → Except Rejection (α × List Token)

namespace Parser

/-- The text and position of the first token, or of the end at `stop`. -/
def front (stop : Nat) : List Token → String × Nat
  | [] => ("", stop)
  | t :: _ => (t.text, t.position)

def tooDeep : Parser Expr := fun _ => .error .tooDeep

def disjunction? : Operator → Option BinaryOp
  | .or => some .or
  | _ => none

def conjunction? : Operator → Option BinaryOp
  | .and => some .and
  | _ => none

def equality? : Operator → Option BinaryOp
  | .equal => some .equal
  | .notEqual => some .notEqual
  | _ => none

def comparison? : Operator → Option BinaryOp
  | .less => some .less
  | .atMost => some .atMost
  | .greater => some .greater
  | .atLeast => some .atLeast
  | _ => none

def additive? : Operator → Option BinaryOp
  | .plus => some .add
  | .minus => some .sub
  | _ => none

def multiplicative? : Operator → Option BinaryOp
  | .times => some .mul
  | .divide => some .div
  | .remainder => some .rem
  | _ => none

def sign? : Operator → Option UnaryOp
  | .minus => some .minus
  | .plus => some .plus
  | .not => some .not
  | _ => none

/-- Operators of one level and their right operands, as long as such operators follow. -/
def chain (ops : Operator → Option BinaryOp) (operand : Parser Expr) : Nat → Expr → Parser Expr
  | 0, left, ts => .ok (left, ts)
  | fuel + 1, left, ts =>
    match ts with
    | ⟨.operator o, _⟩ :: rest =>
      match ops o with
      | some op =>
        match operand rest with
        | .ok (right, rest') => chain ops operand fuel (.binary op left right) rest'
        | .error r => .error r
      | none => .ok (left, ts)
    | _ => .ok (left, ts)

def level (ops : Operator → Option BinaryOp) (operand : Parser Expr) : Parser Expr := fun ts =>
  match operand ts with
  | .ok (left, rest) => chain ops operand rest.length left rest
  | .error r => .error r

/-- All binary levels over a reader of operands. -/
def ladder (operand : Parser Expr) : Parser Expr :=
  level disjunction? (level conjunction? (level equality? (level comparison?
    (level additive? (level multiplicative? operand)))))

def expectColon (stop : Nat) (ts : List Token) : Except Rejection (List Token) :=
  match ts with
  | ⟨.colon, _⟩ :: rest => .ok rest
  | _ => .error (.expected .colon (front stop ts).1 (front stop ts).2)

def expectClosing (stop : Nat) (ts : List Token) : Except Rejection (List Token) :=
  match ts with
  | ⟨.closing, _⟩ :: rest => .ok rest
  | _ => .error (.expected .closing (front stop ts).1 (front stop ts).2)

/-- A conditional whose test is read on the binary levels over `operand`. -/
def conditionalWith (stop : Nat) (inner operand : Parser Expr) : Parser Expr := fun ts => do
  let (test, rest) ← ladder operand ts
  match rest with
  | ⟨.question, _⟩ :: rest => do
    let (yes, rest) ← inner rest
    let rest ← expectColon stop rest
    let (no, rest) ← inner rest
    pure (.conditional test yes no, rest)
  | _ => pure (test, rest)

/-- Expressions after commas, as long as commas follow. -/
def moreArguments (inner : Parser Expr) : Nat → List Expr → Parser (List Expr)
  | 0, acc, ts => .ok (acc.reverse, ts)
  | fuel + 1, acc, ts =>
    match ts with
    | ⟨.comma, _⟩ :: rest =>
      match inner rest with
      | .ok (e, rest') => moreArguments inner fuel (e :: acc) rest'
      | .error r => .error r
    | _ => .ok (acc.reverse, ts)

def arguments (inner : Parser Expr) : Parser (List Expr) := fun ts =>
  match ts with
  | ⟨.closing, _⟩ :: _ => .ok ([], ts)
  | _ =>
    match inner ts with
    | .ok (e, rest) => moreArguments inner rest.length [e] rest
    | .error r => .error r

/-- The call of a function, after its name and the opening parenthesis. -/
def callWith (stop : Nat) (inner : Parser Expr) (name : String) (position : Nat) : Parser Expr :=
  fun ts =>
    match Function.ofName? name with
    | none => .error (.unknownFunction name position)
    | some f => do
      let (es, rest) ← arguments inner ts
      let rest ← expectClosing stop rest
      if f.accepts es.length then pure (.call f es, rest) else .error (.arity f es.length)

def variableNamed (name : String) (position : Nat) : Except Rejection Expr :=
  match Function.ofName? name, Variable.ofName? name with
  | some _, _ => .error (.notCalled name position)
  | none, some v => .ok (.var v)
  | none, none => .error (.unknownVariable name position)

def numberOf (text : List Char) : Except Rejection Expr :=
  match Decimal.read text with
  | some (.finite d) => .ok (.number d)
  | _ => .error (.unreadableNumber (String.ofList text))

def primaryWith (stop : Nat) (inner : Parser Expr) : Parser Expr := fun ts =>
  match ts with
  | ⟨.number text, _⟩ :: rest => (numberOf text).map (·, rest)
  | ⟨.word w, p⟩ :: ⟨.opening, _⟩ :: rest => callWith stop inner (String.ofList w) p rest
  | ⟨.word w, p⟩ :: rest => (variableNamed (String.ofList w) p).map (·, rest)
  | ⟨.opening, _⟩ :: rest => do
    let (e, rest) ← inner rest
    let rest ← expectClosing stop rest
    pure (e, rest)
  | _ => .error (.unexpected (front stop ts).1 (front stop ts).2)

/-- Signs open a level each; `deeper` reads the operand of a sign. -/
def unaryWith (stop : Nat) (deeper inner : Parser Expr) : Parser Expr := fun ts =>
  match ts with
  | ⟨.operator o, _⟩ :: rest =>
    match sign? o with
    | some op =>
      match deeper rest with
      | .ok (e, rest') => .ok (.unary op e, rest')
      | .error r => .error r
    | none => primaryWith stop inner ts
  | _ => primaryWith stop inner ts

/-- The readers of conditionals and of operands when `room` more levels may be opened. -/
def levels (stop : Nat) : Nat → Parser Expr × Parser Expr
  | 0 => (tooDeep, unaryWith stop tooDeep tooDeep)
  | room + 1 =>
    let below := levels stop room
    let conditional := conditionalWith stop below.1 below.2
    (conditional, unaryWith stop below.2 conditional)

/-- The tree of a whole token list whose text has `stop` characters. -/
def tree (stop : Nat) (ts : List Token) : Except Rejection Expr :=
  match (levels stop maxDepth).1 ts with
  | .error r => .error r
  | .ok (e, []) => .ok e
  | .ok (_, t :: _) => .error (.trailing t.text t.position)

end Parser

def parse (s : String) : Except Rejection Expr :=
  match Token.tokens s.toList with
  | .error r => .error r
  | .ok ts => Parser.tree s.length ts

end Payroll.Formula
