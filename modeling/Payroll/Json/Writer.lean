import Payroll.Json.Basic

/-!
Structured data as ASCII text: one line with sorted keys for checksums, and an indented form that
keeps the order of fields for people.
-/

namespace Payroll.Json

def hexDigit (n : Nat) : Char :=
  Char.ofNat (if n < 10 then '0'.toNat + n else 'a'.toNat + (n - 10))

def hexText (width n : Nat) : List Char :=
  match width with
  | 0 => []
  | w + 1 => hexText w (n / 16) ++ [hexDigit (n % 16)]

def unitEscape (n : Nat) : List Char := '\\' :: 'u' :: hexText 4 n

/-- A character of a quoted text. All but the printable characters of ASCII are written as one or
two 16-bit units. -/
def escaped (c : Char) : List Char :=
  match c with
  | '"' => ['\\', '"']
  | '\\' => ['\\', '\\']
  | '\n' => ['\\', 'n']
  | '\r' => ['\\', 'r']
  | '\t' => ['\\', 't']
  | '\x08' => ['\\', 'b']
  | '\x0c' => ['\\', 'f']
  | c =>
    let n := c.toNat
    if n < 32 then unitEscape n
    else if n < 127 then [c]
    else if n < 0x10000 then unitEscape n
    else unitEscape (0xD800 + (n - 0x10000) / 0x400) ++ unitEscape (0xDC00 + (n - 0x10000) % 0x400)

def quoted (s : String) : String :=
  String.ofList ('"' :: s.toList.flatMap escaped ++ ['"'])

def realText : Real64 → String
  | .infinity false => "Infinity"
  | .infinity true => "-Infinity"
  | .nan => "NaN"
  | x => x.text

def boolText (b : Bool) : String := if b then "true" else "false"

def byKey (a b : String × String) : Bool := decide (a.1 ≤ b.1)

mutual

/-- The canonical text: no blanks, and the fields of every object in the order of their keys. -/
def canonical : Json → String
  | .null => "null"
  | .bool b => boolText b
  | .int n => toString n
  | .real x => realText x
  | .text s => quoted s
  | .list items => "[" ++ String.intercalate "," (canonicalList items) ++ "]"
  | .object fields =>
    let members := (canonicalFields fields).mergeSort byKey
    "\x7b" ++ String.intercalate "," (members.map fun m => quoted m.1 ++ ":" ++ m.2) ++ "\x7d"

def canonicalList : List Json → List String
  | [] => []
  | j :: js => canonical j :: canonicalList js

def canonicalFields : Fields → List (String × String)
  | [] => []
  | (k, j) :: fs => (k, canonical j) :: canonicalFields fs

end

mutual

def sorted : Json → Json
  | .list items => .list (sortedList items)
  | .object fields => .object ((sortedFields fields).mergeSort fun a b => decide (a.1 ≤ b.1))
  | j => j

def sortedList : List Json → List Json
  | [] => []
  | j :: js => sorted j :: sortedList js

def sortedFields : Fields → Fields
  | [] => []
  | (k, j) :: fs => (k, sorted j) :: sortedFields fs

end

/-- Items on lines of their own between two brackets. -/
def block (opening closing : String) (depth : Nat) (items : List String) : String :=
  if items.isEmpty then opening ++ closing
  else
    let indent := "\n" ++ String.ofList (List.replicate (2 * (depth + 1)) ' ')
    opening ++ indent ++ String.intercalate ("," ++ indent) items
      ++ "\n" ++ String.ofList (List.replicate (2 * depth) ' ') ++ closing

mutual

def indentedAt (depth : Nat) : Json → String
  | .list items => block "[" "]" depth (indentedList (depth + 1) items)
  | .object fields => block "\x7b" "\x7d" depth (indentedFields (depth + 1) fields)
  | .null => "null"
  | .bool b => boolText b
  | .int n => toString n
  | .real x => realText x
  | .text s => quoted s

def indentedList (depth : Nat) : List Json → List String
  | [] => []
  | j :: js => indentedAt depth j :: indentedList depth js

def indentedFields (depth : Nat) : Fields → List String
  | [] => []
  | (k, j) :: fs => (quoted k ++ ": " ++ indentedAt depth j) :: indentedFields depth fs

end

/-- Two blanks of indentation for each level. -/
def indented (j : Json) : String := indentedAt 0 j

end Payroll.Json
