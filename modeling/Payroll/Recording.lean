import Payroll.Audit.Trail
import Payroll.Calculation

/-!
The audit entries of a calculation: one for every concept, the tax, the subsidy and the
contributions, each with snapshots from which it can be computed again.
-/

namespace Payroll.Recording

def isrRule : String := "ISR_LISR_ART_96"

def subsidyRule : String := "SUBSIDIO_EMPLEO_LISR"

def imssEmployeeRule : String := "IMSS_LSS_ART_15"

def imssEmployerRule : String := "IMSS_LSS_ART_15_PATRON"

def housingRule : String := "INFONAVIT_LEY_ART_29"

def isrConcept : String := "D002"

def imssConcept : String := "D001"

def subsidyConcept : String := "P048"

def imssEmployerConcept : String := "IMSS_PATRON"

def housingConcept : String := "INFONAVIT"

structure Author where
  now : Instant
  name : Option String

structure Content where
  kind : AuditKind
  concept : String
  inputs : Fields
  base : Decimal
  lower : Option Decimal := none
  excess : Option Decimal := none
  marginal : Option Decimal := none
  fixedFee : Option Decimal := none
  result : Decimal
  rule : String
  ruleVersion : String
  table : Option String := none

/-- The `n`-th entry of a calculation, counted from one. -/
def entryId (calculation : String) (n : Nat) : String :=
  calculation ++ "-" ++ String.ofList (Date.padded 3 n)

/-- No entry of a calculation from the `n`-th on is stored. -/
def Unused (t : AuditTrail) (calculation : String) (n : Nat) : Prop :=
  ∀ d ∈ t.documents, ∀ k, n ≤ k → d.id ≠ entryId calculation k

/-- An entry of a calculation, whose id is given when it is stored. -/
def entryFor (a : Author) (s : Calculation.Setting) (c : Calculation) (calculation : Json)
    (breakdown : Fields) (rules : Fields) (x : Content) (id : String) : AuditEntry :=
  let plain : AuditEntry := {
    id
    detail := c.detail
    calculation := some c.id
    period := some s.period.id
    kind := x.kind
    concept := x.concept
    inputs := x.inputs
    base := x.base
    lower := x.lower
    excess := x.excess
    marginal := x.marginal
    fixedFee := x.fixedFee
    result := x.result
    rule := x.rule
    ruleVersion := x.ruleVersion
    table := x.table
    fiscalYear := s.period.year
    periodKind := s.period.kind
    calculatedAt := a.now
    calculatedBy := a.name
    inputSnapshot := none
    outputSnapshot := none
    rulesSnapshot := none
    snapshotHash := none }
  plain.withSnapshots
    (Snapshot.input a.now s.employee s.period s.tables.values calculation)
    (Snapshot.output (.ofDecimal x.result) (.object breakdown))
    rules

/-- An entry to be stored, or why it cannot be written. -/
abbrev Pending := Except Fault (String → AuditEntry)

/-- The version with an id; of several the last. -/
def versionOf (versions : List FormulaVersion) (v : FormulaVersion) : FormulaVersion :=
  (versions.reverse.find? fun w => w.id == v.id).getD v

def formulaEntry (a : Author) (s : Calculation.Setting) (versions : List FormulaVersion)
    (c : Calculation) (amount : ConceptAmount) : Pending :=
  let v := versionOf versions amount.version
  let breakdown := [
    ("taxable_amount", Json.ofDecimal amount.outcome.taxable),
    ("exempt_amount", .ofDecimal amount.outcome.exempt)]
  .ok (entryFor a s c (.object [("variables", .object amount.variablesJson)]) breakdown
    (Snapshot.formulaRules v s.policy) {
      kind := .formula
      concept := v.concept
      inputs := amount.variablesJson
      base := amount.outcome.value
      result := amount.outcome.value
      rule := v.id
      ruleVersion := toString v.version })

def yearText (s : Calculation.Setting) : String := toString s.tables.published.year

def isrEntry (a : Author) (s : Calculation.Setting) (c : Calculation)
    (table : BracketTable IsrTerms) : Pending :=
  let r := c.isr.isr
  let breakdown := [
    ("limite_inferior", Json.ofDecimal r.lower),
    ("excedente", .ofDecimal r.excess),
    ("tasa", .ofDecimal r.rate),
    ("impuesto_marginal", .ofDecimal r.marginal),
    ("cuota_fija", .ofDecimal r.fixedFee),
    ("subsidio_aplicado", .ofDecimal c.isr.applied),
    ("isr_neto", .ofDecimal c.isr.net)]
  .ok (entryFor a s c (.object [("base", .ofDecimal r.base)]) breakdown
    (Snapshot.tableRules isrRule table s.policy) {
      kind := .isr
      concept := isrConcept
      inputs := [("taxable_income", .ofDecimal r.base)]
      base := r.base
      lower := some r.lower
      excess := some r.excess
      marginal := some r.marginal
      fixedFee := some r.fixedFee
      result := r.isr
      rule := isrRule
      ruleVersion := yearText s
      table := some r.table })

def subsidyEntry (a : Author) (s : Calculation.Setting) (c : Calculation) (r : SubsidyResult)
    (table : BracketTable SubsidyTerms) : Pending :=
  .ok (entryFor a s c (.object [("base", .ofDecimal c.isr.isr.base)])
    [("subsidio_aplicado", .ofDecimal c.isr.applied)]
    (Snapshot.tableRules subsidyRule table s.policy) {
      kind := .subsidy
      concept := subsidyConcept
      inputs := [("taxable_income", .ofDecimal r.base)]
      base := r.base
      lower := some r.lower
      result := r.subsidy
      rule := subsidyRule
      ruleVersion := yearText s
      table := some r.table })

def quotaBreakdown (r : ImssResult) : Fields :=
  r.quotas.foldl (fun acc q => Fields.put acc q.concept (.object [
    ("daily_base", .ofDecimal q.dailyBase),
    ("employer", .ofDecimal q.employerAmount),
    ("employee", .ofDecimal q.employeeAmount)])) []

/-- Data that can be written; an integer of too many digits cannot. -/
def writable (days : Int) : Except Fault Unit :=
  if Record.maxIntegerText < digitCount days.natAbs then .error .integerLength else .ok ()

def imssInputs (r : ImssResult) : Fields :=
  [("sbc", .ofDecimal r.sbc), ("days", .int r.days), ("risk_class", r.riskClass)]

/-- One of the amounts of the contributions. -/
structure ImssPart where
  kind : AuditKind
  concept : String
  rule : String
  amount : Decimal

/-- The part that pays into the housing fund, if there is its branch. -/
def housingPart (r : ImssResult) : Except Fault (List ImssPart) :=
  match r.quota? Imss.housingConcept with
  | some _ => do pure [⟨.housing, housingConcept, housingRule, ← r.housing⟩]
  | none => pure []

/-- The contributions in parts; all of them are summed before the first is stored. -/
def imssParts (r : ImssResult) : Except Fault (List ImssPart) := do
  let employee ← r.employeeTotal
  let employer ← r.employerTotal
  let housing ← housingPart r
  pure (⟨.imssEmployee, imssConcept, imssEmployeeRule, employee⟩
    :: ⟨.imssEmployer, imssEmployerConcept, imssEmployerRule, employer⟩ :: housing)

def imssEntry (a : Author) (s : Calculation.Setting) (c : Calculation) (part : ImssPart) :
    Pending := do
  writable c.imss.days
  pure (entryFor a s c (.object (imssInputs c.imss)) (quotaBreakdown c.imss)
    (Snapshot.imssRules part.rule s.tables s.policy) {
      kind := part.kind
      concept := part.concept
      inputs := imssInputs c.imss
      base := c.imss.capped
      result := part.amount
      rule := part.rule
      ruleVersion := yearText s
      table := some s!"IMSS_{yearText s}" })

def imssEntries (a : Author) (s : Calculation.Setting) (c : Calculation) : List Pending :=
  match imssParts c.imss with
  | .ok parts => parts.map (imssEntry a s c)
  | .error f => [.error f]

def taxEntries (a : Author) (s : Calculation.Setting) (c : Calculation) : List Pending :=
  (s.tables.isrTable s.period.kind.name).toOption.toList.map (isrEntry a s c)

def subsidyEntries (a : Author) (s : Calculation.Setting) (c : Calculation) : List Pending :=
  match c.isr.subsidy, s.tables.subsidyTable s.period.kind.name with
  | some r, some table => [subsidyEntry a s c r table]
  | _, _ => []

/-- The entries of a calculation in the order in which they are stored. -/
def pending (a : Author) (s : Calculation.Setting) (versions : List FormulaVersion)
    (c : Calculation) : List Pending :=
  (c.perceptions ++ c.deductions).map (formulaEntry a s versions c) ++ taxEntries a s c
    ++ subsidyEntries a s c ++ imssEntries a s c

/-- Stores entries until one fails; what was stored before it stays. -/
def storeFrom (calculation : String) (n : Nat) (t : AuditTrail) :
    List Pending → AuditTrail × Except Fault (List String)
  | [] => (t, .ok [])
  | p :: ps =>
    match p with
    | .error f => (t, .error f)
    | .ok make =>
      let e := make (entryId calculation n)
      match t.record e with
      | .error f => (t, .error f)
      | .ok t' =>
        let (t'', ids) := storeFrom calculation (n + 1) t' ps
        (t'', ids.map (e.id :: ·))

def store (t : AuditTrail) (a : Author) (s : Calculation.Setting) (versions : List FormulaVersion)
    (c : Calculation) : AuditTrail × Except Fault (List String) :=
  storeFrom c.id 1 t (pending a s versions c)

end Payroll.Recording
