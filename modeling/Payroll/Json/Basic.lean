import Payroll.Real64

/-!
Structured data. Numbers written with a point or an exponent are binary reals and all others are
integers; objects keep the order of their fields and hold every key once.
-/

namespace Payroll

inductive Json
  | null
  | bool (b : Bool)
  | int (n : Int)
  | real (x : Real64)
  | text (s : String)
  | list (items : List Json)
  | object (fields : List (String × Json))
  deriving Inhabited

abbrev Fields := List (String × Json)

namespace Fields

def lookup : Fields → String → Option Json
  | [], _ => none
  | f :: fs, key => if f.1 = key then some f.2 else lookup fs key

/-- The value under a key replaced where it stands, or added at the end. -/
def put : Fields → String → Json → Fields
  | [], key, v => [(key, v)]
  | f :: fs, key, v => if f.1 = key then (key, v) :: fs else f :: put fs key v

def without (fields : Fields) (key : String) : Fields :=
  fields.filter fun f => f.1 != key

def names (fields : Fields) : List String := fields.map (·.1)

/-- The fields with those of `changes` put in place of or after them. -/
def overlay (fields changes : Fields) : Fields :=
  changes.foldl (fun acc f => put acc f.1 f.2) fields

theorem lookup_put_self (fields : Fields) (key : String) (v : Json) :
    lookup (put fields key v) key = some v := by
  induction fields with
  | nil => simp [put, lookup]
  | cons f fs ih => by_cases h : f.1 = key <;> simp [put, lookup, h, ih]

theorem lookup_put_of_ne (fields : Fields) {key other : String} (v : Json) (h : other ≠ key) :
    lookup (put fields key v) other = lookup fields other := by
  induction fields with
  | nil => simp [put, lookup, h.symm]
  | cons f fs ih =>
      by_cases hf : f.1 = key
      · simp [put, lookup, hf, h.symm]
      · simp [put, lookup, hf, ih]

theorem put_put (fields : Fields) (key : String) (v w : Json) :
    put (put fields key v) key w = put fields key w := by
  induction fields with
  | nil => simp [put]
  | cons f fs ih => by_cases h : f.1 = key <;> simp [put, h, ih]

theorem put_of_lookup {fields : Fields} {key : String} {v : Json}
    (h : lookup fields key = some v) : put fields key v = fields := by
  induction fields with
  | nil => cases h
  | cons f fs ih =>
      rw [lookup] at h
      rw [put]
      split at h
      · next hkey => rw [if_pos hkey, ← hkey, ← Option.some.inj h]
      · next hkey => rw [if_neg hkey, ih h]

end Fields

namespace Json

def ofNat (n : Nat) : Json := .int n

def optional (f : α → Json) : Option α → Json
  | some a => f a
  | none => .null

def isNull : Json → Bool
  | .null => true
  | _ => false

/-- Whether a value counts as set: neither null, false, zero nor empty. -/
def truthy : Json → Bool
  | .null => false
  | .bool b => b
  | .int n => n != 0
  | .real x => !x.isZero
  | .text s => s != ""
  | .list items => !items.isEmpty
  | .object fields => !fields.isEmpty

/-- The field of an object; other values have no fields. -/
def field? : Json → String → Option Json
  | .object fields, key => Fields.lookup fields key
  | _, _ => none

def text? : Json → Option String
  | .text s => some s
  | _ => none

mutual

/-- The value as a text document reads back: a real in exponent form is taken for a number only if
its digits have a point, and stays text otherwise. -/
def reread : Json → Json
  | .real x => if x.text.toList.contains '.' then .real x else .text x.text
  | .list items => .list (rereadList items)
  | .object fields => .object (rereadFields fields)
  | j => j

def rereadList : List Json → List Json
  | [] => []
  | j :: js => reread j :: rereadList js

def rereadFields : Fields → Fields
  | [] => []
  | (k, j) :: fs => (k, reread j) :: rereadFields fs

/-- The value with its reals replaced by their texts. -/
def realsAsText : Json → Json
  | .real x => .text x.text
  | .list items => .list (realsAsTextList items)
  | .object fields => .object (realsAsTextFields fields)
  | j => j

def realsAsTextList : List Json → List Json
  | [] => []
  | j :: js => realsAsText j :: realsAsTextList js

def realsAsTextFields : Fields → Fields
  | [] => []
  | (k, j) :: fs => (k, realsAsText j) :: realsAsTextFields fs

end

end Json

end Payroll
