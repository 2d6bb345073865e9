import Payroll.Fault

/-!
Access to nested data by keys and positions.
-/

namespace Payroll.Json

inductive Edit
  | put (value : Json)
  | remove

/-- The field of an object; anything else has no fields. -/
def select (j : Json) (key : String) : Except Fault Json :=
  match j with
  | .object fields =>
    match Fields.lookup fields key with
    | some v => .ok v
    | none => .error (.missingKey key)
  | j => .error (.misuse (.selecting j))

/-- The members of a list, the keys of an object, or the characters of a text. -/
def members : Json → Except Fault (List Json)
  | .list items => .ok items
  | .object fields => .ok (fields.map fun f => .text f.1)
  | .text s => .ok (s.toList.map fun c => .text c.toString)
  | j => .error (.misuse (.iterating j))

def entries : Json → Except Fault Fields
  | .object fields => .ok fields
  | j => .error (.noAttribute j "items")

/-- The data with an edit done at the end of a path of keys and positions. -/
def edited (edit : Edit) : List Json → Json → Except Fault Json
  | [], j => .ok j
  | [.text key], .object fields =>
    match edit with
    | .put v => .ok (.object (Fields.put fields key v))
    | .remove =>
      match Fields.lookup fields key with
      | some _ => .ok (.object (Fields.without fields key))
      | none => .error (.missingKey key)
  | [.int n], .list items =>
    if n.toNat < items.length then
      match edit with
      | .put v => .ok (.list (items.set n.toNat v))
      | .remove => .ok (.list (items.eraseIdx n.toNat))
    else .error (.misuse .position)
  | .text key :: path, .object fields =>
    match Fields.lookup fields key with
    | some v =>
      match edited edit path v with
      | .ok w => .ok (.object (Fields.put fields key w))
      | .error f => .error f
    | none => .error (.missingKey key)
  | .int n :: path, .list items =>
    match items[n.toNat]? with
    | some v =>
      match edited edit path v with
      | .ok w => .ok (.list (items.set n.toNat w))
      | .error f => .error f
    | none => .error (.misuse .position)
  | _ :: _, j => .error (.misuse (.selecting j))

end Payroll.Json
