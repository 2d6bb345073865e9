import Payroll.Json.Writer

/-!
Values as they are shown inside messages: texts in quotes, the constants `None`, `True` and
`False`, lists in square brackets and objects in braces.
-/

namespace Payroll.Json

/-- A character between single or double quotes; what cannot be printed is shown by its code. -/
def shownChar (quote : Char) (c : Char) : List Char :=
  if c = quote ∨ c = '\\' then ['\\', c]
  else if c = '\n' then ['\\', 'n']
  else if c = '\r' then ['\\', 'r']
  else if c = '\t' then ['\\', 't']
  else if Text.isPrintable c then [c]
  else if c.toNat < 0x100 then '\\' :: 'x' :: hexText 2 c.toNat
  else if c.toNat < 0x10000 then '\\' :: 'u' :: hexText 4 c.toNat
  else '\\' :: 'U' :: hexText 8 c.toNat

/-- Single quotes, or double quotes when the text holds single quotes and no double quote. -/
def shownText (s : String) : String :=
  let quote := if s.toList.contains '\'' && !s.toList.contains '"' then '"' else '\''
  String.ofList (quote :: s.toList.flatMap (shownChar quote) ++ [quote])

mutual

def shown : Json → String
  | .null => "None"
  | .bool b => if b then "True" else "False"
  | .int n => toString n
  | .real x => x.text
  | .text s => shownText s
  | .list items => "[" ++ String.intercalate ", " (shownList items) ++ "]"
  | .object fields => "\x7b" ++ String.intercalate ", " (shownFields fields) ++ "\x7d"

def shownList : List Json → List String
  | [] => []
  | j :: js => shown j :: shownList js

def shownFields : Fields → List String
  | [] => []
  | (k, j) :: fs => (shownText k ++ ": " ++ shown j) :: shownFields fs

end

/-- Text is shown as it is, any other value as inside a message. -/
def plain : Json → String
  | .text s => s
  | j => shown j

def kindName : Json → String
  | .null => "NoneType"
  | .bool _ => "bool"
  | .int _ => "int"
  | .real _ => "float"
  | .text _ => "str"
  | .list _ => "list"
  | .object _ => "dict"

end Payroll.Json
