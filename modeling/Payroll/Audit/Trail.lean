import Payroll.Audit.Snapshot
import Payroll.Json.Edit
import Payroll.Key

/-!
The audit trail: stored entries, which are never written again. An entry is found under its payroll
detail and its id.
-/

namespace Payroll

open Decimal (ordinary)

structure AuditDocument where
  detail : String
  id : String
  content : Json

structure AuditTrail where
  documents : List AuditDocument := []

namespace AuditTrail

def holds (t : AuditTrail) (detail id : String) : Bool :=
  t.documents.any fun d => d.detail == detail && d.id == id

/-- An entry is stored unless one with its id is there. -/
def record (t : AuditTrail) (e : AuditEntry) : Except Fault AuditTrail := do
  let detail ← Key.check "payroll_detail_id" (.text e.detail)
  let id ← Key.check "entry_id" (.text e.id)
  if t.holds detail id then throw (.entryExists id)
  pure ⟨t.documents ++ [⟨detail, id, e.toJson⟩]⟩

/-- A new entry from its fields, made at `now` unless they say when. -/
def newEntry (now : Instant) (fields : Fields) : Except Fault AuditEntry :=
  let stamped := match Fields.lookup fields "calculated_at" with
    | some _ => fields
    | none => fields ++ [("calculated_at", .text now.text)]
  AuditEntry.load (.object stamped)

def documentWith (t : AuditTrail) (id : String) : Option AuditDocument :=
  t.documents.find? fun d => d.id == id

def stored (t : AuditTrail) (id : Json) : Except Fault AuditDocument := do
  let key ← Key.check "entry_id" id
  match t.documentWith key with
  | some d => pure d
  | none => throw (.entryNotFound key)

def entry (t : AuditTrail) (id : Json) : Except Fault AuditEntry := do
  AuditEntry.load (← t.stored id).content

def fileOrder (a b : AuditDocument) : Bool :=
  if a.detail = b.detail then decide (a.id ++ ".json" ≤ b.id ++ ".json")
  else decide (a.detail ≤ b.detail)

def inFileOrder (t : AuditTrail) : List AuditDocument := t.documents.mergeSort fileOrder

/-- Which entries are asked for. A filter that is not set admits all. -/
structure Filter where
  period : Json := .null
  detail : Json := .null
  kind : Json := .null

def Filter.admits (f : Filter) (e : AuditEntry) : Bool :=
  (!f.period.truthy || f.period.text? == e.period && e.period.isSome)
    && (!f.kind.truthy || f.kind.text? == some e.kind.name)

/-- Older entries first, then smaller ids. -/
def older (a b : AuditEntry) : Bool :=
  if a.calculatedAt.micros = b.calculatedAt.micros then decide (a.id ≤ b.id)
  else decide (a.calculatedAt.micros < b.calculatedAt.micros)

/-- Entries in the order of their times; local times and others have no common order. -/
def inOrder (es : List AuditEntry) : Except Fault (List AuditEntry) :=
  let isLocal (e : AuditEntry) := e.calculatedAt.offset.isNone
  if es.any isLocal && es.any fun e => !isLocal e then .error (.misuse .ordering)
  else .ok (es.mergeSort older)

/-- The entries that a filter admits, oldest first. -/
def list (t : AuditTrail) (f : Filter) : Except Fault (List AuditEntry) := do
  let documents ← if f.detail.truthy then do
      let detail ← Key.check "payroll_detail_id" f.detail
      pure (t.inFileOrder.filter fun d => d.detail == detail)
    else pure t.inFileOrder
  let entries ← documents.mapM fun d => AuditEntry.load d.content
  inOrder (entries.filter f.admits)

def references (rule : String) : List AuditDocument → Except Fault Bool
  | [] => .ok false
  | d :: ds => do
    let e ← AuditEntry.load d.content
    if e.rule = rule then pure true else references rule ds

def isReferenced (t : AuditTrail) (rule : String) : Except Fault Bool :=
  references rule t.inFileOrder

/-- What two entries of one calculation have in common. -/
structure Stamp where
  id : String
  detail : String
  calculation : Option String
  deriving DecidableEq, Repr

/-- The calculation of the last entry of a detail. -/
def latestOf (detail : String) : List Stamp → Option (Option String)
  | [] => none
  | s :: ss =>
    match latestOf detail ss with
    | some c => some c
    | none => if s.detail = detail then some s.calculation else none

/-- The entries, oldest first, that belong to the latest calculation of their detail. -/
def current (ss : List Stamp) : List Stamp :=
  ss.filter fun s => latestOf s.detail ss == some s.calculation

def stampOf (e : AuditEntry) : Stamp := ⟨e.id, e.detail, e.calculation⟩

def currentEntries (es : List AuditEntry) : List AuditEntry :=
  let stamps := es.map stampOf
  es.filter fun e => latestOf e.detail stamps == some e.calculation

structure KindSummary where
  kind : AuditKind
  entries : Nat := 0
  totalBase : Decimal := 0
  totalResult : Decimal := 0
  tables : List String := []

namespace KindSummary

def add (s : KindSummary) (e : AuditEntry) : Except Fault KindSummary := do
  let totalBase ← ordinary.add s.totalBase e.base
  let totalResult ← ordinary.add s.totalResult e.result
  let tables := match e.table with
    | some t => if t = "" ∨ s.tables.contains t then s.tables else s.tables ++ [t]
    | none => s.tables
  pure { s with entries := s.entries + 1, totalBase, totalResult, tables }

def tablesUsed (s : KindSummary) : List String := s.tables.mergeSort fun a b => decide (a ≤ b)

def toJson (s : KindSummary) : Json :=
  .object [
    ("concept_type", .text s.kind.name),
    ("entries", .ofNat s.entries),
    ("total_base", .ofDecimal s.totalBase),
    ("total_result", .ofDecimal s.totalResult),
    ("tables_used", .list (s.tablesUsed.map Json.text))]

end KindSummary

def tally (e : AuditEntry) : List KindSummary → Except Fault (List KindSummary)
  | [] => do pure [← ({ kind := e.kind } : KindSummary).add e]
  | s :: ss => do
    if s.kind = e.kind then pure ((← s.add e) :: ss) else pure (s :: (← tally e ss))

structure PeriodSummary where
  period : String
  entries : Nat
  details : Nat
  kinds : List KindSummary
  superseded : Nat

/-- The entries of a period by kind. Only the latest calculation of every detail counts. -/
def summarize (t : AuditTrail) (period : Json) : Except Fault PeriodSummary := do
  let recorded ← t.list { period }
  let entries := currentEntries recorded
  let kinds ← entries.foldlM (fun ss e => tally e ss) []
  pure {
    period := period.plain
    entries := entries.length
    details := (entries.map (·.detail)).eraseDups.length
    kinds
    superseded := recorded.length - entries.length }

namespace PeriodSummary

def total (s : PeriodSummary) (kind : AuditKind) : Decimal :=
  match s.kinds.find? fun k => k.kind == kind with
  | some k => k.totalResult
  | none => 0

def toFields (s : PeriodSummary) : Fields := [
  ("period_id", .text s.period),
  ("entries", .ofNat s.entries),
  ("payroll_details", .ofNat s.details),
  ("by_concept", .object (s.kinds.map fun k => (k.kind.name, k.toJson))),
  ("superseded_entries", .ofNat s.superseded)]

def withTax (s : PeriodSummary) : Json :=
  .object (s.toFields ++ [("isr_total", .ofDecimal (s.total .isr))])

end PeriodSummary

/-- A change of stored data behind the back of the trail. -/
def tamper (t : AuditTrail) (id : Json) (path : List Json) (edit : Json.Edit) :
    Except Fault AuditTrail := do
  let target ← t.stored id
  let content ← target.content.edited edit path
  pure ⟨t.documents.map fun d =>
    if d.detail = target.detail ∧ d.id = target.id then { d with content } else d⟩

end AuditTrail

end Payroll
