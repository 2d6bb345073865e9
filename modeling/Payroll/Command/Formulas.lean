import Payroll.Command.Basic
import Payroll.Formula.Catalog
import Payroll.Text.Columns

/-!
Commands for formulas: checking and trying them, and the versions that are stored.
-/

namespace Payroll.Command.Formulas

open Text (padRight)

/-- A formula that is not accepted is explained with one reason a line. -/
def wording : Fault → String
  | .rejected rs => "Invalid formula:\n  " ++ String.intercalate "\n  " (rs.map (·.message))
  | f => f.message

def explained (expected : Fault → Bool) (r : Except Fault α) : Action α :=
  explainingAs wording expected r

/-! What a version looks like -/

def scopeText (v : FormulaVersion) : String :=
  match v.fiscalYear, v.validFrom with
  | some year, _ => s!"fiscal year {year}"
  | none, some start =>
    match v.validTo with
    | some stop => s!"{start} -> {stop}"
    | none => s!"{start} -> open"
  | none, none => "default"

def limitLine (v : FormulaVersion) : List String :=
  match v.exemptLimit with
  | some d =>
    if d.isZero then [] else
      let unit := (v.limitUnit.map LimitUnit.name).getD "None"
      [s!"  exempt up to {d} {unit}"]
  | none => []

def successorLine (v : FormulaVersion) : List String :=
  match v.supersededBy with
  | some id =>
    if id = "" then [] else
      let time := (v.supersededAt.map Instant.spacedText).getD "None"
      [s!"  superseded by {id} at {time}"]
  | none => []

def versionLines (v : FormulaVersion) : List String :=
  let status := if v.active then "active" else "superseded"
  [s!"{v.concept} v{v.version} [{status}] {v.id}",
    s!"  {v.name} ({v.kind.name}, {scopeText v})",
    s!"  = {v.expression}"]
    ++ limitLine v ++ successorLine v

def listLine (v : FormulaVersion) : String :=
  let marker := if v.active then "" else " (superseded)"
  "  " ++ padRight 8 v.concept ++ " v" ++ padRight 3 (toString v.version) ++ " "
    ++ padRight 28 (scopeText v) ++ " " ++ v.name ++ marker

/-! Checking and trying -/

def namesLine (label : String) (names : List String) : List String :=
  if names.isEmpty then []
  else ["  " ++ label ++ ": " ++ String.intercalate ", " (Formula.sortNames names.eraseDups)]

def validate : Command :=
  taking "validate" "Check an expression without evaluating it."
    (word "EXPRESSION" asText) fun _ expression => do
    let e ← explained Fault.isFormulaFault (Formula.accept expression)
    sayAll ("Valid formula" :: namesLine "Variables" (e.vars.map (·.name))
      ++ namesLine "Functions" (e.functions.map (·.name)))

/-- The name and the value on both sides of the first equals sign. -/
def assignment? (pair : String) : Option (String × Json) :=
  let cs := pair.toList
  let name := cs.takeWhile (· != '=')
  let stripped := Text.strip name
  if name.length = cs.length ∨ stripped = [] then none
  else
    let value := Text.strip (cs.drop (name.length + 1))
    some (String.ofList stripped, .text (String.ofList value))

/-- The last value given for a name counts. -/
def assignments (pairs : List String) : Action Fields :=
  pairs.foldlM (fun fields pair =>
    match assignment? pair with
    | some (name, value) => pure (Fields.put fields name value)
    | none => refuseValue s!"Expected NAME=VALUE, got '{pair}'") []

def tryOut : Command :=
  taking "test" "Evaluate an expression against sample values."
    (Prod.mk <$> word "EXPRESSION" asText <*> repeatedOption ["--var", "-v"])
    fun _ (expression, pairs) => do
      let fields ← assignments pairs
      let d ← explained Fault.isFormulaFault
        (Formula.tryOut RoundingPolicy.standard.method expression fields)
      say d.text

def entryLine (name description : String) : String :=
  "  " ++ padRight 22 name ++ " " ++ description

def vocabulary : Command :=
  taking "variables" "List the variables and functions formulas can use."
    (flag ["--json"]) fun _ asJson =>
    if asJson then
      say (Json.object [
        ("variables", Formula.Catalog.vocabulary),
        ("functions", Formula.Catalog.functions)]).indented
    else
      sayAll ("Variables:" :: Formula.Variable.all.map (fun v => entryLine v.name v.description)
        ++ ["", "Functions:"] ++ Formula.Function.all.map (fun f => entryLine f.name f.help))

def templateLines (t : Formula.Template) : List String :=
  [s!"{t.concept}  {t.name} ({t.kind.name})", s!"      = {t.expression}"]

def templates : Command :=
  taking "templates" "List the built-in concept templates." (pure ()) fun _ _ =>
    sayAll (Formula.Template.all.flatMap templateLines)

/-! Versions -/

/-- What lines that make a version have in common. -/
structure Terms where
  name : Option String
  expression : Option String
  fiscalYear : Option Int
  validFrom : Option Date
  validTo : Option Date
  taxable : Option Bool
  limit : Option String
  limitUnit : Option LimitUnit

def termsArguments : Arguments Terms :=
  Terms.mk
    <$> option ["--name"] asText
    <*> option ["--expression", "-e"] asText
    <*> option ["--fiscal-year"] asInteger
    <*> option ["--valid-from"] asDate
    <*> option ["--valid-to"] asDate
    <*> flags "--taxable" "--not-taxable"
    <*> option ["--exempt-limit"] asText
    <*> option ["--exempt-limit-type"] (oneOf LimitUnit.all LimitUnit.name)

def given? (key : String) (value : Option α) (write : α → Json) : Fields :=
  (value.map fun a => (key, write a)).toList

def Terms.toFields (t : Terms) : Fields :=
  given? "name" t.name .text
    ++ given? "expression" t.expression .text
    ++ given? "fiscal_year" t.fiscalYear .int
    ++ given? "valid_from" t.validFrom (.text ·.text)
    ++ given? "valid_to" t.validTo (.text ·.text)
    ++ given? "is_taxable" t.taxable .bool
    ++ given? "exempt_limit" t.limit .text
    ++ given? "exempt_limit_type" t.limitUnit (.text ·.name)

structure CreateLine where
  company : String
  concept : String
  fromTemplate : Bool
  kind : Option ConceptKind
  terms : Terms
  satKey : Option String
  createdBy : Option String
  asJson : Bool

def createArguments : Arguments CreateLine :=
  CreateLine.mk
    <$> word "COMPANY_ID" asText
    <*> word "CONCEPT_CODE" asText
    <*> flag ["--template", "-t"]
    <*> option ["--type"] (oneOf ConceptKind.all ConceptKind.name)
    <*> termsArguments
    <*> option ["--sat-key"] asText
    <*> option ["--created-by"] asText
    <*> flag ["--json"]

/-- The fields of the template that a line starts from. -/
def templateFields (l : CreateLine) : Action Fields :=
  if l.fromTemplate then
    match Formula.Template.find? l.concept with
    | some t => pure (Fields.without t.toFields "concept_code")
    | none => refuseValue s!"No template for concept code {l.concept}"
  else pure []

def CreateLine.fields (l : CreateLine) : Fields :=
  given? "concept_type" l.kind (.text ·.name) ++ l.terms.toFields
    ++ given? "sat_concept_key" l.satKey .text

def neededOptions : List (String × String) :=
  [("--type", "concept_type"), ("--name", "name"), ("--expression", "expression")]

def missingOptions (fields : Fields) : List String :=
  (neededOptions.filter fun o => (Fields.lookup fields o.2).isNone).map (·.1)

def draftOf (l : CreateLine) (fields : Fields) : FormulaStore.Draft :=
  let field (key : String) := (Fields.lookup fields key).getD .null
  { company := .text l.company
    concept := .text l.concept
    kind := field "concept_type"
    name := field "name"
    expression := field "expression"
    createdBy := .optional .text l.createdBy
    fields := fields.filter fun f => !(neededOptions.map (·.2)).contains f.1 }

def sayMade (headline : String) (asJson : Bool) (v : FormulaVersion) : Action Unit :=
  if asJson then say v.toJson.indented else sayAll (headline :: versionLines v)

def create : Command :=
  taking "create" "Create the first version of a concept formula." createArguments fun o l => do
    let fields := Fields.overlay (← templateFields l) l.fields
    let missing := missingOptions fields
    unless missing.isEmpty do
      let names := String.intercalate ", " missing
      refuse s!"Missing {names} (or use --template)"
    let (row, store) ← explained
      (fun f => f.isFormulaFault || f.isValueFault || among [.conflict] f)
      ((← data).store.create o.id o.now (draftOf l fields))
    setStore store
    sayMade "Created formula" l.asJson row

def newVersion : Command :=
  taking "new-version" "Supersede FORMULA_ID with a new version."
    ((·, ·, ·, ·) <$> word "FORMULA_ID" asText <*> termsArguments <*> option ["--created-by"] asText
      <*> flag ["--json"])
    fun o (formula, terms, createdBy, asJson) => do
      let changes := terms.toFields
      if changes.isEmpty then refuse "Nothing to change"
      let (row, store) ← explained
        (fun f => f.isFormulaFault || f.isValueFault || among [.conflict, .noFormula] f)
        ((← data).store.newVersion o.id o.now (.text formula) changes (.optional .text createdBy))
      setStore store
      sayMade s!"Created version {row.version}" asJson row

def resolve : Command :=
  taking "resolve" "Show the formula in effect for a concept on TARGET_DATE."
    ((·, ·, ·, ·) <$> word "COMPANY_ID" asText <*> word "CONCEPT_CODE" asText
      <*> word "TARGET_DATE" asDate <*> flag ["--json"])
    fun _ (company, concept, target, asJson) => do
      let found ← explaining Fault.isValueFault
        ((← data).store.resolveOn (.text company) (.text concept) target)
      match found with
      | none => fail s!"No active formula for {company}/{concept}"
      | some r =>
        if asJson then
          say (Json.object (r.row.toFields ++ [("resolved_by", .text r.tier.name)])).indented
        else sayAll (s!"Resolved by {r.tier.name}:" :: versionLines r.row)

def history : Command :=
  taking "history" "Show every version of a concept formula, newest first."
    (Prod.mk <$> word "COMPANY_ID" asText <*> word "CONCEPT_CODE" asText)
    fun _ (company, concept) => do
    let rows ← explaining Fault.isValueFault
      ((← data).store.history (.text company) (.text concept))
    if rows.isEmpty then say s!"No formulas for {company}/{concept}"
    else sayAll (rows.flatMap fun v => versionLines v ++ [""])

def list : Command :=
  taking "list" "List the formulas of a company."
    (Prod.mk <$> word "COMPANY_ID" asText <*> flag ["--all"]) fun _ (company, all) => do
    let rows ← explaining Fault.isValueFault ((← data).store.list (.text company) .null !all)
    if rows.isEmpty then say s!"No formulas for {company}"
    else sayAll (rows.map listLine)

def delete : Command :=
  taking "delete" "Delete a formula that no history depends on."
    (Prod.mk <$> word "FORMULA_ID" asText <*> flag ["--force", "-f"]) fun _ (formula, force) => do
    unless force do confirm s!"Delete formula {formula}?"
    let d ← data
    let store ← explaining (among [.noFormula, .immutable])
      (d.store.delete d.trail.isReferenced (.text formula))
    setStore store
    say s!"Deleted formula {formula}"

def all : List Command :=
  [validate, tryOut, vocabulary, templates, create, newVersion, resolve, history, list, delete]

end Payroll.Command.Formulas
