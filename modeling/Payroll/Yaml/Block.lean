import Payroll.Yaml.Scalar

/-!
YAML documents in block style: a line for every entry, nested collections indented by two columns,
and a list under a key at the indentation of the key.
-/

namespace Payroll.Yaml

/-- What a collection with entries is written as: entries on lines of their own. -/
def isBlock : Json → Bool
  | .list items => !items.isEmpty
  | .object fields => !fields.isEmpty
  | _ => false

/-- Keys up to this length stand before their colon. -/
def longestKey : Nat := 122

def isSimpleKey (key : List Char) : Bool :=
  key != [] && !key.any isBreak && key.length ≤ longestKey

/-- The lines of a block with its first line behind a mark of one column. -/
def behindMark (indent : Nat) (mark : Char) : List (List Char) → List (List Char)
  | [] => []
  | l :: ls => (List.replicate indent ' ' ++ mark :: ' ' :: l.drop (indent + 2)) :: ls

def blanks (indent : Nat) : List Char := List.replicate indent ' '

mutual

/-- The lines of a collection with entries. -/
def blockLines (indent : Nat) : Json → List (List Char)
  | .list items => itemLines indent items
  | .object fields => fieldLines indent fields
  | _ => []

def itemLines (indent : Nat) : List Json → List (List Char)
  | [] => []
  | j :: js => markedLines indent '-' j ++ itemLines indent js

/-- A value behind a mark that starts its line. -/
def markedLines (indent : Nat) (mark : Char) (j : Json) : List (List Char) :=
  if isBlock j then behindMark indent mark (blockLines (indent + 2) j)
  else [blanks indent ++ mark :: ' ' :: writeScalar (indent + 2) (indent + 2) j]

def fieldLines (indent : Nat) : Fields → List (List Char)
  | [] => []
  | (k, j) :: fs =>
    let key := k.toList
    let entry :=
      if isSimpleKey key then
        let head := blanks indent ++ writeText (indent + 2) false indent key ++ [':']
        match j with
        | .list (i :: is) => head :: itemLines indent (i :: is)
        | .object (f :: fs) => head :: fieldLines (indent + 2) (f :: fs)
        | j => [head ++ ' ' :: writeScalar (indent + 2) (head.length + 1) j]
      else
        (blanks indent ++ '?' :: ' ' :: writeText (indent + 2) true (indent + 2) key)
          :: markedLines indent ':' j
    entry ++ fieldLines indent fs

end

def lines (j : Json) : List String :=
  if isBlock j then (blockLines 0 j).map String.ofList
  else [String.ofList (writeScalar 2 0 j)]

def text (j : Json) : String := String.intercalate "\n" (lines j)

end Payroll.Yaml
