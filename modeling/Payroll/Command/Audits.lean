import Payroll.Audit.Replay
import Payroll.Command.Basic
import Payroll.Decimal.Fixed
import Payroll.Text.Columns

/-!
Commands that show the audit trail and check its entries.
-/

namespace Payroll.Command.Audits

open Text (padLeft padRight)

def trail : Action AuditTrail := do pure (← data).trail

def entryNoun (n : Nat) : String := if n = 1 then "entry" else "entries"

structure ListLine where
  period : Option String
  detail : Option String
  kind : Option String
  asJson : Bool

def listArguments : Arguments ListLine :=
  ListLine.mk
    <$> option ["--period"] asText
    <*> option ["--detail"] asText
    <*> option ["--type"] asText
    <*> flag ["--json"]

def ListLine.filter (l : ListLine) : AuditTrail.Filter where
  period := .optional .text l.period
  detail := .optional .text l.detail
  kind := .optional (.text ∘ Text.upper) l.kind

def entryLine (e : AuditEntry) : String :=
  e.id ++ "  " ++ padRight 20 e.detail ++ " " ++ padRight 14 e.kind.name ++ " "
    ++ padRight 12 e.concept ++ " " ++ padLeft 12 e.result.text ++ "  " ++ e.rule

def list : Command :=
  taking "list" "List audit entries, oldest first." listArguments fun _ l => do
    let entries ← explaining Fault.isValueFault ((← trail).list l.filter)
    if l.asJson then say (Json.list (entries.map AuditEntry.toJson)).indented
    else if entries.isEmpty then say "No audit entries found."
    else do
      let n := entries.length
      sayAll (entries.map entryLine ++ ["", s!"{n} {entryNoun n}"])

def isEntryFault (f : Fault) : Bool := f.isValueFault || among [.noEntry] f

def «show» : Command :=
  taking "show" "Show one audit entry with its snapshots." (word "ENTRY_ID" asText) fun _ id => do
    let e ← explaining isEntryFault ((← trail).entry (.text id))
    say e.toJson.indented

def checkLines (c : IntegrityCheck) : List String :=
  if c.valid then [s!"OK      {c.entry}  {c.stored}"]
  else s!"FAILED  {c.entry}  {c.stored}" :: c.details.map ("          " ++ ·)

/-- Either an entry or a period is checked. -/
def checks (entry period : Option String) : Action (List IntegrityCheck) := do
  let isGiven (s : Option String) := s.any (· != "")
  if isGiven entry == isGiven period then refuse "Give an ENTRY_ID or --period"
  let t ← trail
  if isGiven entry then
    let c ← explaining isEntryFault (t.verify (.optional .text entry))
    pure [c]
  else explaining isEntryFault (t.verifyPeriod (.optional .text period))

def verify : Command :=
  taking "verify" "Recompute entries from their snapshots and compare."
    (Prod.mk <$> lastWord "ENTRY_ID" asText <*> option ["--period"] asText)
    fun _ (entry, period) => do
      let results ← checks entry period
      let failed := (results.filter fun c => !c.valid).length
      sayAll (results.flatMap checkLines
        ++ ["", s!"{results.length - failed} of {results.length} entries verified"])
      unless failed = 0 do fail s!"{failed} audit {entryNoun failed} failed verification"

def kindJson (k : AuditTrail.KindSummary) : Json :=
  .object [
    ("entries", .ofNat k.entries),
    ("total_base", .ofDecimal k.totalBase),
    ("total_result", .ofDecimal k.totalResult),
    ("tables_used", .list (k.tablesUsed.map Json.text))]

def summaryJson (s : AuditTrail.PeriodSummary) : Json :=
  .object [
    ("period_id", .text s.period),
    ("entries", .ofNat s.entries),
    ("payroll_details", .ofNat s.details),
    ("superseded_entries", .ofNat s.superseded),
    ("by_concept", .object (s.kinds.map fun k => (k.kind.name, kindJson k)))]

def kindLine (k : AuditTrail.KindSummary) : String :=
  "  " ++ padRight 14 k.kind.name ++ " " ++ padLeft 8 (toString k.entries) ++ " "
    ++ padLeft 16 (k.totalBase.groupedText 2) ++ " " ++ padLeft 14 (k.totalResult.groupedText 2)

def headings : String :=
  "  " ++ padRight 14 "Concept" ++ " " ++ padLeft 8 "Entries" ++ " " ++ padLeft 16 "Base" ++ " "
    ++ padLeft 14 "Result"

def summaryLines (s : AuditTrail.PeriodSummary) : List String :=
  let byName (a b : AuditTrail.KindSummary) := decide (a.kind.name ≤ b.kind.name)
  let superseded := if s.superseded = 0 then []
    else [s!"  ({s.superseded} entries from earlier runs not counted)"]
  [s!"Period {s.period}: {s.entries} entries, {s.details} payroll details"]
    ++ superseded ++ ["", headings] ++ (s.kinds.mergeSort byName).map kindLine

def summary : Command :=
  taking "summary" "Totals of a period's audit entries by concept type."
    (Prod.mk <$> word "PERIOD_ID" asText <*> flag ["--json"]) fun _ (period, asJson) => do
    let s ← explaining Fault.isValueFault ((← trail).summarize (.text period))
    if asJson then say (summaryJson s).indented
    else if s.entries = 0 then say s!"No audit entries for period {period}"
    else sayAll (summaryLines s)

def all : List Command := [list, «show», verify, summary]

end Payroll.Command.Audits
