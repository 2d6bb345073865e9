import Payroll.Formula.Evaluate
import Payroll.Json.Edit
import Payroll.Json.Number
import Payroll.Key
import Payroll.Version.Overlap
import Payroll.Version.Resolution

/-!
The stored versions of formulas. The versions of a company's concept form a scope, whose revision
counts the writes to it. An operation that fails gives no store, so that it changes nothing.
-/

namespace Payroll

/-- The versions of one concept in the order in which they were added. -/
structure Scope where
  company : String
  concept : String
  revision : Int := 0
  rows : List FormulaVersion := []
  deriving DecidableEq, Repr

structure FormulaStore where
  scopes : List Scope := []
  deriving DecidableEq, Repr

namespace FormulaStore

open Version

/-- The scope of a concept; one never written is empty. -/
def scopeIn (company concept : String) : List Scope → Scope
  | [] => { company, concept }
  | s :: ss => if s.company = company ∧ s.concept = concept then s else scopeIn company concept ss

/-- The scopes with one put in its place or at the end. -/
def putScope (s : Scope) : List Scope → List Scope
  | [] => [s]
  | t :: ts => if t.company = s.company ∧ t.concept = s.concept then s :: ts else t :: putScope s ts

def scope (store : FormulaStore) (company concept : String) : Scope :=
  scopeIn company concept store.scopes

theorem scopeIn_putScope_self (s : Scope) (ss : List Scope) :
    scopeIn s.company s.concept (putScope s ss) = s := by
  induction ss with
  | nil => simp [putScope, scopeIn]
  | cons t ts ih =>
      by_cases h : t.company = s.company ∧ t.concept = s.concept <;> simp [putScope, scopeIn, h, ih]

theorem scopeIn_putScope_of_ne (s : Scope) (ss : List Scope) {company concept : String}
    (h : ¬(s.company = company ∧ s.concept = concept)) :
    scopeIn company concept (putScope s ss) = scopeIn company concept ss := by
  induction ss with
  | nil => simp [putScope, scopeIn, h]
  | cons t ts ih =>
      by_cases ht : t.company = s.company ∧ t.concept = s.concept
      · simp [putScope, ht, scopeIn, h]
      · simp [putScope, ht, scopeIn, ih]

def scopeOf (store : FormulaStore) (company concept : Json) : Except Fault Scope := do
  let company ← Key.check "company_id" company
  let concept ← Key.check "concept_code" concept
  pure (store.scope company concept)

/-- Puts rows into a scope, if its revision is still the expected one. -/
def write (store : FormulaStore) (company concept : String) (expected : Int)
    (rows : List FormulaVersion) : Except Fault FormulaStore :=
  let current := (store.scope company concept).revision
  if current = expected then
    .ok ⟨putScope ⟨company, concept, expected + 1, rows⟩ store.scopes⟩
  else .error (.staleRevision company concept expected current)

def fileOrder (a b : Scope) : Bool :=
  if a.company = b.company then decide (a.concept ++ ".json" ≤ b.concept ++ ".json")
  else decide (a.company ≤ b.company)

/-- The first version with an id, scope by scope. -/
def find (store : FormulaStore) (id : Json) : Except Fault FormulaVersion :=
  let rows := (store.scopes.mergeSort fileOrder).flatMap (·.rows)
  match id.text?.bind fun s => rows.find? fun v => v.id == s with
  | some v => .ok v
  | none => .error (.formulaNotFound id)

def concepts (store : FormulaStore) (company : Json) : Except Fault (List String) := do
  let company ← Key.check "company_id" company
  pure (Formula.sortNames ((store.scopes.filter fun s => s.company == company).map (·.concept)))

def byConcept (a b : FormulaVersion) : Bool :=
  if a.concept = b.concept then decide (a.version ≤ b.version) else decide (a.concept ≤ b.concept)

def list (store : FormulaStore) (company concept : Json) (activeOnly : Bool) :
    Except Fault (List FormulaVersion) := do
  let codes ← if concept.truthy then pure [concept]
    else do pure ((← store.concepts company).map Json.text)
  let scopes ← codes.mapM (store.scopeOf company)
  let rows := (scopes.flatMap (·.rows)).filter fun v => v.active || !activeOnly
  pure (rows.mergeSort byConcept)

def newestFirst (a b : FormulaVersion) : Bool :=
  if a.version = b.version then decide (a.createdAt.micros ≤ b.createdAt.micros)
  else decide (b.version < a.version)

/-- All versions of a concept, the newest first. -/
def history (store : FormulaStore) (company concept : Json) : Except Fault (List FormulaVersion) :=
  do pure ((← store.scopeOf company concept).rows.mergeSort newestFirst)

def overlap (store : FormulaStore) (company concept : Json) (c : Coverage)
    (except : Option String) : Except Fault (List Conflict) := do
  if c.validTo.isSome && c.validFrom.isNone then throw .windowWithoutStart
  pure (conflicts (← store.scopeOf company concept).rows c except)

def resolveOn (store : FormulaStore) (company concept : Json) (target : Date) :
    Except Fault (Option Resolved) := do
  pure (resolve (← store.scopeOf company concept).rows target)

/-- The fields that one version may have different from another. -/
def versionedFields : List String :=
  ["concept_type", "name", "description", "expression", "is_taxable", "is_exempt", "exempt_limit",
   "exempt_limit_type", "sat_concept_key", "fiscal_year", "valid_from", "valid_to"]

def otherFields (fields : Fields) : List String :=
  Formula.sortNames ((Fields.names fields).filter fun n => !versionedFields.contains n)

def acceptExpression (expression : Json) : Except Fault Unit := do
  let _ ← Formula.accept (← Formula.source expression)

/-- What a new formula is made from; `fields` holds the optional versioned fields. -/
structure Draft where
  company : Json
  concept : Json
  kind : Json
  name : Json
  expression : Json
  createdBy : Json := .null
  fields : Fields := []

/-- The fields that a draft has apart from its optional ones. -/
def draftFields : List String :=
  ["company_id", "concept_code", "concept_type", "name", "expression", "created_by"]

/-- A draft gives its own fields once. -/
def refuseRepeated (fields : Fields) : Except Fault Unit :=
  match (Fields.names fields).find? draftFields.contains with
  | some n => .error (.misuse (.alreadyGiven n))
  | none => .ok ()

def Draft.row (d : Draft) (id : String) (now : Instant) : Except Fault FormulaVersion :=
  FormulaVersion.load (.object ([
    ("id", .text id),
    ("company_id", d.company),
    ("concept_code", d.concept),
    ("concept_type", d.kind),
    ("name", d.name),
    ("expression", d.expression),
    ("version", .int 1),
    ("is_active", .bool true),
    ("created_at", .text now.text),
    ("created_by", d.createdBy)] ++ d.fields))

/-- A first version is added to a scope if nothing active collides with it. -/
def create (store : FormulaStore) (id : String) (now : Instant) (d : Draft) :
    Except Fault (FormulaVersion × FormulaStore) := do
  refuseRepeated d.fields
  let unknown := otherFields d.fields
  ensure unknown.isEmpty (.unknownFields unknown)
  acceptExpression d.expression
  let row ← d.row id now
  let scope ← store.scopeOf (.text row.company) (.text row.concept)
  let found := conflicts scope.rows (coverageOf row) none
  ensure found.isEmpty (.conflicts found)
  let next ← store.write row.company row.concept scope.revision (scope.rows ++ [row])
  pure (row, next)

/-- The conflict with the version that replaced an inactive one. -/
def supersededBy (rows : List FormulaVersion) (v : FormulaVersion) : Conflict :=
  conflictWith .superseded ((rows.find? fun r => some r.id == v.supersededBy).getD v)

/-- The successor of a version: its fields with the changed ones in their place. -/
def successor (v : FormulaVersion) (id : String) (now : Instant) (changes : Fields)
    (createdBy : Json) : Except Fault FormulaVersion :=
  FormulaVersion.load (.object (Fields.overlay (Fields.overlay v.toFields changes) [
    ("id", .text id),
    ("version", .int (v.version + 1)),
    ("is_active", .bool true),
    ("created_at", .text now.text),
    ("created_by", createdBy),
    ("superseded_at", .null),
    ("superseded_by", .null)]))

def supersede (v : FormulaVersion) (now : Instant) (successor : String) : FormulaVersion :=
  { v with active := false, supersededAt := some now, supersededBy := some successor }

def locate (store : FormulaStore) (formula : Json) : Except Fault (Scope × FormulaVersion) := do
  let located ← store.find formula
  let scope ← store.scopeOf (.text located.company) (.text located.concept)
  let current ← existing (.formulaNotFound formula) (scope.rows.find? fun v => v.id == located.id)
  pure (scope, current)

/-- An expression among changed fields is accepted before anything else is looked at. -/
def acceptChanged (changes : Fields) : Except Fault Unit :=
  match Fields.lookup changes "expression" with
  | some e => acceptExpression e
  | none => .ok ()

/-- An active version is superseded and its successor added, unless another active version collides
with the successor. A field that is changed twice has its last value. -/
def newVersion (store : FormulaStore) (id : String) (now : Instant) (formula : Json)
    (changes : Fields) (createdBy : Json) : Except Fault (FormulaVersion × FormulaStore) := do
  let changes := Fields.overlay [] changes
  let fixed := otherFields changes
  ensure fixed.isEmpty (.fixedFields fixed)
  acceptChanged changes
  let (scope, current) ← store.locate formula
  ensure current.active (.conflicts [supersededBy scope.rows current])
  let row ← successor current id now changes createdBy
  let found := conflicts scope.rows (coverageOf row) (some current.id)
  ensure found.isEmpty (.conflicts found)
  let kept := scope.rows.map fun v => if v.id = current.id then supersede current now row.id else v
  let next ← store.write scope.company scope.concept scope.revision (kept ++ [row])
  pure (row, next)

/-- An active version that replaced none and is not referenced is removed. -/
def delete (store : FormulaStore) (isReferenced : String → Except Fault Bool) (formula : Json) :
    Except Fault FormulaStore := do
  let (scope, row) ← store.locate formula
  ensure row.active (.formulaSuperseded row.id)
  ensure (!scope.rows.any fun v => v.supersededBy == some row.id) (.formulaReplacedEarlier row.id)
  let referenced ← isReferenced row.id
  ensure (!referenced) (.formulaReferenced row.id)
  store.write scope.company scope.concept scope.revision
    (scope.rows.filter fun v => v.id != row.id)

end FormulaStore

namespace Scope

def toJson (s : Scope) : Json :=
  .object [("revision", .int s.revision), ("rows", .list (s.rows.map FormulaVersion.toJson))]

def load (company concept : String) (j : Json) : Except Fault Scope := do
  let revision ← ((j.field? "revision").getD (.int 0)).toInteger
  let rows ← (← ((j.field? "rows").getD (.list [])).members).mapM FormulaVersion.load
  pure { company, concept, revision, rows }

end Scope

end Payroll
