import Payroll.Json.Basic

/-!
Reading structured data from its text. A key that occurs twice keeps its first place and its last
value.
-/

namespace Payroll.Json

open Decimal

def skipBlanks (cs : List Char) : List Char :=
  cs.dropWhile fun c => c == ' ' || c == '\n' || c == '\r' || c == '\t'

def hexValue? (c : Char) : Option Nat :=
  if c.isDigit then some (c.toNat - '0'.toNat)
  else if 'a' ≤ c ∧ c ≤ 'f' then some (c.toNat - 'a'.toNat + 10)
  else if 'A' ≤ c ∧ c ≤ 'F' then some (c.toNat - 'A'.toNat + 10)
  else none

def unit? : List Char → Option (Nat × List Char)
  | a :: b :: c :: d :: cs => do
    let a ← hexValue? a
    let b ← hexValue? b
    let c ← hexValue? c
    let d ← hexValue? d
    pure (((a * 16 + b) * 16 + c) * 16 + d, cs)
  | _ => none

def simpleEscape? : Char → Option Char
  | '"' => some '"'
  | '\\' => some '\\'
  | '/' => some '/'
  | 'b' => some '\x08'
  | 'f' => some '\x0c'
  | 'n' => some '\n'
  | 'r' => some '\r'
  | 't' => some '\t'
  | _ => none

/-- A 16-bit unit and, if it opens a pair, the unit after it; one without its pair is replaced. -/
def scalar (n : Nat) (cs : List Char) : Char × List Char :=
  if 0xD800 ≤ n ∧ n < 0xDC00 then
    match cs with
    | '\\' :: 'u' :: rest =>
      match unit? rest with
      | some (m, rest') =>
        if 0xDC00 ≤ m ∧ m < 0xE000 then
          (Char.ofNat (0x10000 + (n - 0xD800) * 0x400 + (m - 0xDC00)), rest')
        else ('\ufffd', cs)
      | none => ('\ufffd', cs)
    | _ => ('\ufffd', cs)
  else if 0xDC00 ≤ n ∧ n < 0xE000 then ('\ufffd', cs)
  else (Char.ofNat n, cs)

/-- The rest of a quoted text, its characters gathered in reverse. -/
def readText : Nat → List Char → List Char → Option (String × List Char)
  | 0, _, _ => none
  | fuel + 1, acc, cs =>
    match cs with
    | '"' :: rest => some (String.ofList acc.reverse, rest)
    | '\\' :: 'u' :: rest =>
      match unit? rest with
      | some (n, rest') =>
        let s := scalar n rest'
        readText fuel (s.1 :: acc) s.2
      | none => none
    | '\\' :: c :: rest =>
      match simpleEscape? c with
      | some e => readText fuel (e :: acc) rest
      | none => none
    | c :: rest => if c.toNat < 32 then none else readText fuel (c :: acc) rest
    | [] => none

def isNumberChar (c : Char) : Bool :=
  c.isDigit || c == '+' || c == '-' || c == '.' || c == 'e' || c == 'E'

def readNumber (cs : List Char) : Option (Json × List Char) :=
  let word := cs.takeWhile isNumberChar
  let rest := cs.dropWhile isNumberChar
  match readAscii word with
  | some (.finite d) =>
    if word.all fun c => c.isDigit || c == '-' then some (.int d.signed, rest)
    else some (.real (Real64.ofDecimal d), rest)
  | _ => none

def expect (word : String) (j : Json) (cs : List Char) : Option (Json × List Char) :=
  if word.toList.isPrefixOf cs then some (j, cs.drop word.length) else none

mutual

def readValue : Nat → List Char → Option (Json × List Char)
  | 0, _ => none
  | fuel + 1, cs =>
    match skipBlanks cs with
    | '"' :: rest =>
      match readText (rest.length + 1) [] rest with
      | some (s, rest') => some (.text s, rest')
      | none => none
    | '[' :: rest =>
      match skipBlanks rest with
      | ']' :: rest' => some (.list [], rest')
      | rest' => readItems fuel [] rest'
    | '\x7b' :: rest =>
      match skipBlanks rest with
      | '\x7d' :: rest' => some (.object [], rest')
      | rest' => readFields fuel [] rest'
    | 'n' :: rest => expect "ull" .null rest
    | 't' :: rest => expect "rue" (.bool true) rest
    | 'f' :: rest => expect "alse" (.bool false) rest
    | rest => readNumber rest

def readItems : Nat → List Json → List Char → Option (Json × List Char)
  | 0, _, _ => none
  | fuel + 1, acc, cs =>
    match readValue fuel cs with
    | some (j, rest) =>
      match skipBlanks rest with
      | ',' :: rest' => readItems fuel (j :: acc) rest'
      | ']' :: rest' => some (.list (j :: acc).reverse, rest')
      | _ => none
    | none => none

def readFields : Nat → Fields → List Char → Option (Json × List Char)
  | 0, _, _ => none
  | fuel + 1, acc, cs =>
    match skipBlanks cs with
    | '"' :: rest =>
      match readText (rest.length + 1) [] rest with
      | some (key, rest') =>
        match skipBlanks rest' with
        | ':' :: rest'' =>
          match readValue fuel rest'' with
          | some (j, more) =>
            match skipBlanks more with
            | ',' :: more' => readFields fuel (Fields.put acc key j) more'
            | '\x7d' :: more' => some (.object (Fields.put acc key j), more')
            | _ => none
          | none => none
        | _ => none
      | none => none
    | _ => none

end

def ofText? (s : String) : Option Json :=
  let cs := s.toList
  match readValue (2 * cs.length + 2) cs with
  | some (j, rest) => if skipBlanks rest = [] then some j else none
  | none => none

end Payroll.Json
