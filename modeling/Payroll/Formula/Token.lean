import Payroll.Formula.Rejection

/-!
Formulas as tokens. A token is the longest that can start where it stands; white space between
tokens is skipped.
-/

namespace Payroll.Formula

open Text

inductive Operator
  | and
  | or
  | equal
  | notEqual
  | atMost
  | atLeast
  | less
  | greater
  | plus
  | minus
  | times
  | divide
  | remainder
  | not
  deriving DecidableEq, Repr

namespace Operator

def sign : Operator → List Char
  | .and => ['&', '&']
  | .or => ['|', '|']
  | .equal => ['=', '=']
  | .notEqual => ['!', '=']
  | .atMost => ['<', '=']
  | .atLeast => ['>', '=']
  | .less => ['<']
  | .greater => ['>']
  | .plus => ['+']
  | .minus => ['-']
  | .times => ['*']
  | .divide => ['/']
  | .remainder => ['%']
  | .not => ['!']

/-- The operators of two characters come first. -/
def all : List Operator :=
  [.and, .or, .equal, .notEqual, .atMost, .atLeast, .less, .greater, .plus, .minus, .times,
   .divide, .remainder, .not]

/-- The longest operator at the front of a text. -/
def atFront? (cs : List Char) : Option Operator := all.find? fun o => o.sign.isPrefixOf cs

end Operator

inductive Lexeme
  | number (text : List Char)
  | word (text : List Char)
  | operator (o : Operator)
  | opening
  | closing
  | comma
  | question
  | colon
  deriving DecidableEq, Repr

def Lexeme.text : Lexeme → List Char
  | .number t | .word t => t
  | .operator o => o.sign
  | .opening => ['(']
  | .closing => [')']
  | .comma => [',']
  | .question => ['?']
  | .colon => [':']

structure Token where
  lexeme : Lexeme
  position : Nat
  deriving DecidableEq, Repr

namespace Token

def text (t : Token) : String := String.ofList t.lexeme.text

def punctuation? : Char → Option Lexeme
  | '(' => some .opening
  | ')' => some .closing
  | ',' => some .comma
  | '?' => some .question
  | ':' => some .colon
  | _ => none

/-- Digits with at most one point among them, up to the first other character; `none` if a second
point follows. -/
def numberText (pointSeen : Bool) : List Char → Option (List Char)
  | [] => some []
  | c :: cs =>
    if isDigit c then (numberText pointSeen cs).map (c :: ·)
    else if c = '.' then
      if pointSeen then none else (numberText true cs).map (c :: ·)
    else some []

def startsNumber : List Char → Bool
  | '.' :: c :: _ => isDigit c
  | c :: _ => isDigit c
  | [] => false

def isWordStart (c : Char) : Bool := isLetter c || c == '_'

def isWordPart (c : Char) : Bool := isAlphanumeric c || c == '_'

/-- The lexeme at the front of a text whose first character is not blank. -/
def lexemeAt (position : Nat) (c : Char) (cs : List Char) : Except Rejection Lexeme :=
  if startsNumber (c :: cs) then
    match numberText false (c :: cs) with
    | none => .error (.secondPoint position)
    | some t =>
      if t.getLast? = some '.' then .error (.trailingPoint (String.ofList t) position)
      else .ok (.number t)
  else if isWordStart c then .ok (.word ((c :: cs).takeWhile isWordPart))
  else match punctuation? c with
    | some l => .ok l
    | none =>
      match Operator.atFront? (c :: cs) with
      | some o => .ok (.operator o)
      | none => .error (.unexpectedCharacter c position)

/-- The tokens of a text that follows `position` characters and `count` tokens. -/
def scan (position count : Nat) : List Char → Except Rejection (List Token)
  | [] => .ok []
  | c :: cs =>
    if isBlank c then scan (position + 1) count cs
    else
      match lexemeAt position c cs with
      | .error r => .error r
      | .ok l =>
        if count < maxTokens then
          let n := l.text.length
          match scan (position + n) (count + 1) (cs.drop (n - 1)) with
          | .error r => .error r
          | .ok ts => .ok (⟨l, position⟩ :: ts)
        else .error .tooManyTokens
termination_by cs => cs.length

def tokens (s : List Char) : Except Rejection (List Token) :=
  if s.all isBlank then .error .empty
  else if maxLength < s.length then .error (.tooLong s.length)
  else scan 0 0 s

end Token

end Payroll.Formula
