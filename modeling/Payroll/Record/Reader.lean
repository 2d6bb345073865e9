import Payroll.Fault
import Payroll.Record.Scalar

/-!
Records: objects with named fields. All fields are read and everything that is wrong is reported,
first the fields in the order of the record, then fields that the record does not have.
-/

namespace Payroll

namespace Checked

/-- Both parts, with everything that is wrong with either. -/
def apply : Checked (α → β) → Checked α → Checked β
  | .ok f, .ok a => .ok (f a)
  | .ok _, .error is => .error is
  | .error is, .ok _ => .error is
  | .error is, .error js => .error (is ++ js)

@[simp] theorem apply_ok (f : α → β) (a : α) : apply (.ok f) (.ok a) = .ok (f a) := rfl

def cons (a : Checked α) (as : Checked (List α)) : Checked (List α) :=
  apply (a.map List.cons) as

/-- What is wrong below a step is reported from above it. -/
def under (s : Step) : Checked α → Checked α
  | .ok a => .ok a
  | .error is => .error (is.map (Issue.under s))

@[simp] theorem under_ok (s : Step) (a : α) : under s (.ok a) = .ok a := rfl

end Checked

namespace Record

/-- A reader of some fields of an object, with the names of the fields. -/
structure FieldReader (α : Type) where
  names : List String
  run : Fields → Checked α

namespace FieldReader

instance : Applicative FieldReader where
  pure a := ⟨[], fun _ => .ok a⟩
  seq f a :=
    let g := a ()
    ⟨f.names ++ g.names, fun fs => (f.run fs).apply (g.run fs)⟩

theorem run_pure (a : α) (fs : Fields) : (pure a : FieldReader α).run fs = .ok a := rfl

theorem run_seq (f : FieldReader (α → β)) (g : FieldReader α) (fs : Fields) :
    (f <*> g).run fs = (f.run fs).apply (g.run fs) := rfl

theorem run_map (h : α → β) (g : FieldReader α) (fs : Fields) :
    (h <$> g).run fs = Checked.apply (.ok h) (g.run fs) := rfl

theorem names_seq (f : FieldReader (α → β)) (g : FieldReader α) :
    (f <*> g).names = f.names ++ g.names := rfl

theorem names_map (h : α → β) (g : FieldReader α) : (h <$> g).names = g.names := rfl

end FieldReader

def required (name : String) (read : Reader α) : FieldReader α where
  names := [name]
  run fs := (match Fields.lookup fs name with
    | some j => read j
    | none => refuse .missing).under (.key name)

def optional (name : String) (read : Reader α) : FieldReader (Option α) where
  names := [name]
  run fs :=
    match Fields.lookup fs name with
    | none | some .null => .ok none
    | some j => Checked.under (.key name) ((read j).map some)

def defaulted (name : String) (standard : α) (read : Reader α) : FieldReader α where
  names := [name]
  run fs :=
    match Fields.lookup fs name with
    | none => .ok standard
    | some j => (read j).under (.key name)

/-- A record with a name and a rule on all its fields together, which is looked at last. -/
def record (name : String) (reader : FieldReader α) (rule : α → Option String) : Reader α
  | .object fs =>
    let unknown := fs.filterMap fun f =>
      if reader.names.contains f.1 then none else some ⟨[.key f.1], .unknownField⟩
    match reader.run fs, unknown with
    | .ok a, [] =>
      match rule a with
      | none => .ok a
      | some text => refuse (.rule text)
    | .ok _, is => .error is
    | .error is, js => .error (is ++ js)
  | _ => refuse (.notRecord name)

def noRule (_ : α) : Option String := none

def itemsFrom (read : Reader α) (n : Nat) : List Json → Checked (List α)
  | [] => .ok []
  | j :: js => Checked.cons ((read j).under (.index n)) (itemsFrom read (n + 1) js)

def listOf (read : Reader α) : Reader (List α)
  | .list items => itemsFrom read 0 items
  | _ => refuse .notList

def nonemptyListOf (read : Reader α) : Reader (List α)
  | .list [] => refuse .emptyList
  | j => listOf read j

def entries (key : Reader κ) (read : Reader α) : Fields → Checked (List (κ × α))
  | [] => .ok []
  | (k, j) :: fs =>
    let name := (key (.text k)).under .keyItself
    let entry := Checked.apply (name.map Prod.mk) (read j)
    Checked.cons (Checked.under (.key k) entry) (entries key read fs)

/-- An object whose keys are themselves read. -/
def mapOf (key : Reader κ) (read : Reader α) : Reader (List (κ × α))
  | .object fs => entries key read fs
  | _ => refuse .notObject

/-- A record read from data, or the fault that lists what is wrong with it. -/
def load (name : String) (read : Reader α) (j : Json) : Except Fault α :=
  (read j).mapError (Fault.invalidRecord name)

end Record

end Payroll
