import Payroll.Json.Writer
import Payroll.Text.Columns

/-!
Scalars of YAML documents: which texts can stand without quotes, and how quoted ones are written.
Lines longer than the width are folded at blanks.
-/

namespace Payroll.Yaml

/-! Words that denote something other than themselves -/

/-- The rest behind a run of at least `least` and at most `most` digits. -/
def digitRun (least most : Nat) (cs : List Char) : Option (List Char) :=
  let n := (cs.takeWhile Char.isDigit).length
  if least ≤ n ∧ n ≤ most then some (cs.drop n) else none

def expect (c : Char) : List Char → Option (List Char)
  | d :: cs => if d = c then some cs else none
  | [] => none

def unsigned : List Char → List Char
  | '-' :: cs => cs
  | '+' :: cs => cs
  | cs => cs

def isGrouped (c : Char) : Bool := c.isDigit || c == '_'

def isHexDigit (c : Char) : Bool := c.isDigit || ('a' ≤ c && c ≤ 'f') || ('A' ≤ c && c ≤ 'F')

def isSpelledWith (accept : Char → Bool) (cs : List Char) : Bool := cs != [] && cs.all accept

/-- What is left behind parts of sixty: colons with one digit, or two of which the first is below
six. -/
def sixties : List Char → List Char
  | ':' :: a :: b :: cs =>
    if a.isDigit && a ≤ '5' && b.isDigit then sixties cs
    else if a.isDigit then sixties (b :: cs)
    else ':' :: a :: b :: cs
  | [':', a] => if a.isDigit then [] else [':', a]
  | cs => cs

def startsWithSixty : List Char → Bool
  | ':' :: a :: _ => a.isDigit
  | _ => false

def isInteger (cs : List Char) : Bool :=
  match unsigned cs with
  | ['0'] => true
  | '0' :: 'b' :: ds => isSpelledWith (fun c => c == '0' || c == '1' || c == '_') ds
  | '0' :: 'x' :: ds => isSpelledWith (fun c => isHexDigit c || c == '_') ds
  | '0' :: ds => isSpelledWith (fun c => ('0' ≤ c && c ≤ '7') || c == '_') ds
  | c :: ds =>
    let rest := ds.dropWhile isGrouped
    c.isDigit && (rest == [] || (startsWithSixty rest && sixties rest == []))
  | [] => false

/-- Nothing, or an exponent with a sign. -/
def isExponent : List Char → Bool
  | [] => true
  | e :: s :: ds =>
    (e == 'e' || e == 'E') && (s == '-' || s == '+') && isSpelledWith Char.isDigit ds
  | _ => false

def infinityWords : List String := [".inf", ".Inf", ".INF"]

def nanWords : List String := [".nan", ".NaN", ".NAN"]

def isReal (cs : List Char) : Bool :=
  match unsigned cs with
  | c :: ds =>
    let rest := ds.dropWhile isGrouped
    if c.isDigit then
      match rest with
      | '.' :: fraction => isExponent (fraction.dropWhile isGrouped)
      | _ =>
        match sixties rest with
        | '.' :: fraction => startsWithSixty rest && fraction.all isGrouped
        | _ => false
    else
      match cs with
      | '.' :: d :: fraction => d.isDigit && isExponent (fraction.dropWhile isGrouped)
      | _ => false
  | [] => false

def isGap (c : Char) : Bool := c == ' ' || c == '\t'

/-- The offset of a time: nothing, `Z`, or hours with optional minutes. -/
def isOffset (cs : List Char) : Bool :=
  match cs.dropWhile isGap with
  | [] => cs == []
  | ['Z'] => true
  | s :: ds =>
    (s == '-' || s == '+') &&
      match digitRun 1 2 ds with
      | some [] => true
      | some (':' :: ms) => digitRun 2 2 ms == some []
      | _ => false

def isClock (cs : List Char) : Bool :=
  let rest := do
    let cs ← digitRun 1 2 cs
    let cs ← digitRun 2 2 (← expect ':' cs)
    digitRun 2 2 (← expect ':' cs)
  match rest with
  | some ('.' :: cs) => isOffset (cs.dropWhile Char.isDigit)
  | some cs => isOffset cs
  | none => false

def isDay (cs : List Char) : Bool :=
  let rest := do
    let cs ← digitRun 2 2 (← expect '-' (← digitRun 4 4 cs))
    digitRun 2 2 (← expect '-' cs)
  rest == some []

def isTime (cs : List Char) : Bool :=
  let rest := do
    let cs ← digitRun 1 2 (← expect '-' (← digitRun 4 4 cs))
    digitRun 1 2 (← expect '-' cs)
  match rest with
  | some (c :: cs) =>
    if c == 'T' || c == 't' then isClock cs else isGap c && isClock (cs.dropWhile isGap)
  | _ => false

/-- Words for truth values, for nothing, and for the marks of merged and standard values. -/
def reservedWords : List String :=
  ["yes", "Yes", "YES", "no", "No", "NO", "true", "True", "TRUE", "false", "False", "FALSE",
   "on", "On", "ON", "off", "Off", "OFF", "", "~", "null", "Null", "NULL", "<<", "="]

/-- Whether a text without quotes reads back as that text. -/
def denotesText (cs : List Char) : Bool :=
  let word := String.ofList cs
  !(reservedWords.contains word || infinityWords.contains (String.ofList (unsigned cs))
    || nanWords.contains word || isInteger cs || isReal cs || isDay cs || isTime cs)

/-! Styles -/

inductive Style
  | plain
  | single
  | double
  deriving DecidableEq, Repr

def isBreak (c : Char) : Bool := c == '\n' || c == '\x85' || c == '\u2028' || c == '\u2029'

def isSpace (c : Char) : Bool := c == ' ' || c == '\n'

/-- Characters that can only be written as escapes. -/
def isSpecial (c : Char) : Bool := c != '\n' && !(' ' ≤ c && c ≤ '~')

def beforeSpace : List Char → Bool
  | [] => true
  | c :: _ => isSpace c

/-- Characters that have a meaning at the beginning of a scalar. -/
def leadingMarks : String := "#,[]\x7b\x7d&*!|>'\"%@`"

def hasLeadingMark : List Char → Bool
  | [] => false
  | c :: cs =>
    leadingMarks.toList.contains c || ((c == '?' || c == ':' || c == '-') && beforeSpace cs)

/-- Whether a colon before a blank or a number sign after one stands inside. -/
def hasInnerMark : List Char → Bool
  | a :: b :: cs =>
    (b == ':' && beforeSpace cs) || (b == '#' && isSpace a) || hasInnerMark (b :: cs)
  | _ => false

def hasMark (cs : List Char) : Bool :=
  ['-', '-', '-'].isPrefixOf cs || ['.', '.', '.'].isPrefixOf cs || hasLeadingMark cs
    || hasInnerMark cs

/-- Whether a blank and a line break stand side by side. -/
def mixesSpaces : List Char → Bool
  | a :: b :: cs => (isSpace a && isSpace b && a != b) || mixesSpaces (b :: cs)
  | _ => false

def atEdge (cs : List Char) : Bool :=
  cs.head?.any isSpace || cs.getLast?.any isSpace

/-- Without quotes if that reads back, in single quotes if no escapes are needed. -/
def styleOf (cs : List Char) : Style :=
  if cs.any isSpecial || mixesSpaces cs then .double
  else if denotesText cs && !cs.contains '\n' && !atEdge cs && !hasMark cs then .plain
  else .single

/-! Writing -/

/-- Columns beyond this one end a line at the next blank. -/
def width : Nat := 80

def newLine (indent : Nat) : List Char := '\n' :: List.replicate indent ' '

/-- The words of a text with the blanks or line breaks between them. -/
def runs : List Char → List (List Char)
  | [] => []
  | c :: cs =>
    match runs cs with
    | (d :: ds) :: rest =>
      if (isSpace c && c == d) || (!isSpace c && !isSpace d) then (c :: d :: ds) :: rest
      else [c] :: (d :: ds) :: rest
    | rest => [c] :: rest

/-- One run after the other. A single blank inside the text may become a new line, and a line break
is written as an empty line. -/
def flow (indent : Nat) (fold : Bool) (first : Bool) (column : Nat) : List (List Char) → List Char
  | [] => []
  | run :: rest =>
    if run.head? = some '\n' then
      '\n' :: run ++ List.replicate indent ' ' ++ flow indent fold false indent rest
    else if run = [' '] && width < column && fold && !first && rest != [] then
      newLine indent ++ flow indent fold false indent rest
    else run ++ flow indent fold false (column + run.length) rest

/-- Between single quotes a single quote is written twice. -/
def doubleQuotes (cs : List Char) : List Char :=
  cs.flatMap fun c => if c = '\'' then ['\'', '\''] else [c]

def upperHex (n digits : Nat) : List Char := (Json.hexText digits n).map Char.toUpper

def namedEscapes : List (Char × Char) :=
  [('\x00', '0'), ('\x07', 'a'), ('\x08', 'b'), ('\t', 't'), ('\n', 'n'), ('\x0b', 'v'),
   ('\x0c', 'f'), ('\r', 'r'), ('\x1b', 'e'), ('"', '"'), ('\\', '\\'), ('\x85', 'N'),
   ('\xa0', '_'), ('\u2028', 'L'), ('\u2029', 'P')]

/-- The escape of a character that cannot stand for itself between double quotes. -/
def escape? (c : Char) : Option (List Char) :=
  match namedEscapes.find? fun e => e.1 == c with
  | some e => some ['\\', e.2]
  | none =>
    let n := c.toNat
    if ' ' ≤ c && c ≤ '~' then none
    else if n < 0x100 then some ('\\' :: 'x' :: upperHex n 2)
    else if n < 0x10000 then some ('\\' :: 'u' :: upperHex n 4)
    else some ('\\' :: 'U' :: upperHex n 8)

def guarded (c : Option Char) : List Char := if c = some ' ' then ['\\'] else []

/-- Between double quotes a line ends with a backslash, and so begins one that starts with a blank.
`held` has the characters since the last escape, the last one first. -/
def escapedFlow (indent : Nat) (fold : Bool) (first : Bool) (column : Nat) (held : List Char) :
    List Char → List Char
  | [] => held.reverse
  | c :: cs =>
    let inside := fold && !first && cs != []
    match escape? c with
    | some e =>
      let column := column + held.length + e.length
      if inside && width + 1 < column then
        let mark := guarded cs.head?
        held.reverse ++ e ++ '\\' :: newLine indent ++ mark
          ++ escapedFlow indent fold false (indent + mark.length) [] cs
      else held.reverse ++ e ++ escapedFlow indent fold false column [] cs
    | none =>
      if inside && (c == ' ' || held == []) && width < column + held.length then
        let mark := guarded (some c)
        held.reverse ++ '\\' :: newLine indent ++ mark
          ++ escapedFlow indent fold false (indent + mark.length) [c] cs
      else escapedFlow indent fold false column (c :: held) cs

/-- A text that starts in a column, and goes on in further lines at an indentation. -/
def writeText (indent : Nat) (fold : Bool) (column : Nat) (cs : List Char) : List Char :=
  match styleOf cs with
  | .plain => flow indent fold true column (runs cs)
  | .single => '\'' :: flow indent fold true (column + 1) (runs (doubleQuotes cs)) ++ ['\'']
  | .double => '"' :: escapedFlow indent fold true (column + 1) [] cs ++ ['"']

/-- The digits of a real in exponent form are written with a point. -/
def realText (x : Real64) : List Char :=
  match x with
  | .infinity false => ".inf".toList
  | .infinity true => "-.inf".toList
  | .nan => ".nan".toList
  | x =>
    let cs := x.text.toList
    if cs.contains '.' then cs
    else cs.takeWhile (· != 'e') ++ '.' :: '0' :: cs.dropWhile (· != 'e')

/-- Values that stand within a line; a collection does so only when it is empty. -/
def writeScalar (indent : Nat) (column : Nat) : Json → List Char
  | .null => "null".toList
  | .bool b => (Json.boolText b).toList
  | .int n => (toString n).toList
  | .real x => realText x
  | .text s => writeText indent true column s.toList
  | .list _ => ['[', ']']
  | .object _ => ['\x7b', '\x7d']

end Payroll.Yaml
