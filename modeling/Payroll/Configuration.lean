import Payroll.Fiscal.Lookup
import Payroll.Json.Number
import Payroll.Rounding

/-!
The configuration of an installation: settings of the machine, the profile of the companies, and
table files.
-/

namespace Payroll

/-- Settings and profile are absent until something is set. `named` tells whether the directory was
named by whoever started the program. -/
structure Configuration where
  directory : String
  named : Bool := true
  settings? : Option Fields := none
  profile? : Option Fields := none
  tableFiles : TableFiles := []

/-- The parts of a key, between its points. -/
def keyParts : List Char → List (List Char)
  | [] => [[]]
  | '.' :: cs => [] :: keyParts cs
  | c :: cs =>
    match keyParts cs with
    | [] => [[c]]
    | p :: ps => (c :: p) :: ps

def keyPath (key : String) : List String := (keyParts key.toList).map String.ofList

namespace Profile

/-- The value at the end of a path, if every step leads through an object. -/
def valueAt : Json → List String → Option Json
  | j, [] => some j
  | .object fields, key :: path =>
    match Fields.lookup fields key with
    | some v => valueAt v path
    | none => none
  | _, _ :: _ => none

def fieldsOf : Option Json → Fields
  | some (.object fields) => fields
  | _ => []

/-- A value put at the end of a path; whatever on the way is no object gives way to one. -/
def setAt (v : Json) : List String → Fields → Fields
  | [], fields => fields
  | [key], fields => Fields.put fields key v
  | key :: path, fields =>
    Fields.put fields key (.object (setAt v path (fieldsOf (Fields.lookup fields key))))

end Profile

/-- The entry that a member of a list stands for: a pair of a key and a value. -/
def pairOf (place : Nat) : Json → Except Fault (String × Json)
  | .text s =>
    match s.toList with
    | [k, v] => .ok (k.toString, .text v.toString)
    | cs => .error (.pairLength place cs.length)
  | .list [.text k, v] => .ok (k, v)
  | .list [.list items, _] => .error (.misuse (.hashing (.list items)))
  | .list [.object fields, _] => .error (.misuse (.hashing (.object fields)))
  | .list [k, v] => .ok (k.shown, v)
  | .list items => .error (.pairLength place items.length)
  | .object [(k, _), (v, _)] => .ok (k, .text v)
  | .object fields => .error (.pairLength place fields.length)
  | _ => .error (.misuse (.pairing place))

def pairsFrom (place : Nat) : List Json → Except Fault Fields
  | [] => .ok []
  | j :: js => do
    let pair ← pairOf place j
    let pairs ← pairsFrom (place + 1) js
    pure (pair :: pairs)

/-- Data taken as a set of fields. What counts as unset has none, and a list is read as pairs. -/
def Json.asFields (j : Json) : Except Fault Fields :=
  if j.truthy then
    match j with
    | .object fields => .ok fields
    | j => do
      let pairs ← match j with
        | .list items => pairsFrom 0 items
        | .text s => pairsFrom 0 (s.toList.map fun c => .text c.toString)
        | j => .error (.misuse (.iterating j))
      pure (Fields.overlay [] pairs)
  else .ok []

namespace Configuration

def settings (c : Configuration) : Fields := c.settings?.getD []

def profile (c : Configuration) : Fields := c.profile?.getD []

def setting? (c : Configuration) (key : String) : Option Json := Fields.lookup c.settings key

def setSetting (c : Configuration) (key : String) (v : Json) : Configuration :=
  { c with settings? := some (Fields.put c.settings key v) }

def profileValue? (c : Configuration) (key : String) : Option Json :=
  Profile.valueAt (.object c.profile) (keyPath key)

def setProfileValue (c : Configuration) (key : String) (v : Json) : Configuration :=
  { c with profile? := some (Profile.setAt v (keyPath key) c.profile) }

def company (c : Configuration) (id : String) : Except Fault Fields := do
  let companies := (Fields.lookup c.profile "companies").getD .null
  if !companies.truthy then return []
  match companies with
  | .object fields => ((Fields.lookup fields id).getD .null).asFields
  | j => throw (.noAttribute j "get")

def set? (fields : Fields) (key : String) : Option Json :=
  (Fields.lookup fields key).filter Json.truthy

/-- The rounding of a company: its own, that of the settings, or the standard one. -/
def roundingPolicy (c : Configuration) (id : String) : Except Fault RoundingPolicy := do
  let own ← c.company id
  let method := ((set? own "rounding_method").or
    (set? c.settings "default_rounding_method")).getD (.text RoundingMethod.round.name)
  let places := match Fields.lookup own "rounding_precision" with
    | none | some .null =>
      (Fields.lookup c.settings "default_rounding_precision").getD (.ofNat currencyPlaces)
    | some j => j
  let count ← places.toInteger
  RoundingPolicy.load (.object [
    ("method", .text (Text.upper method.plain)),
    ("precision", .int count)])

def settingsPath (c : Configuration) : String := c.directory ++ "/settings.json"

def profilePath (c : Configuration) : String := c.directory ++ "/profile.yaml"

def tablesDirectory (c : Configuration) : String := c.directory ++ "/fiscal-tables"

def loadTables (c : Configuration) (year : Int) : Except Fault FiscalTables := do
  FiscalTables.ofSet (← c.tableFiles.load c.tablesDirectory year)

def years (c : Configuration) : Except Fault (List Nat) := c.tableFiles.years

end Configuration

end Payroll
