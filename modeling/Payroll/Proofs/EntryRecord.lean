import Mathlib
import Payroll.Audit.Snapshot
import Payroll.Proofs.RecordFields

/-!
Entries of the audit trail as records: an entry that was written reads back as it was, and vouches
for its own snapshots.
-/

namespace Payroll

open Record

theorem PeriodKind.ofName?_name (k : PeriodKind) : ofName? k.name = some k := by
  cases k <;> rfl

theorem AuditKind.ofName?_name (k : AuditKind) : ofName? k.name = some k := by
  cases k <;> rfl

namespace AuditEntry

/-- The amounts of an entry can be written and read again. -/
structure Readable (e : AuditEntry) : Prop where
  base : e.base.readable
  lower : ∀ d ∈ e.lower, d.readable
  excess : ∀ d ∈ e.excess, d.readable
  marginal : ∀ d ∈ e.marginal, d.readable
  fixedFee : ∀ d ∈ e.fixedFee, d.readable
  result : e.result.readable

variable {e : AuditEntry}

theorem run_toFields (h : e.Readable) : fieldReader.run e.toFields = .ok e := by
  have htext {fs : Fields} {name : String} {o : Option String}
      (hl : Fields.lookup fs name = some (Json.optional .text o)) :
      (optional name text).run fs = .ok o :=
    optional_written (fun _ _ => rfl) (fun _ => Json.noConfusion) hl
  have hamount {fs : Fields} {name : String} {o : Option Decimal} (hr : ∀ d ∈ o, d.readable)
      (hl : Fields.lookup fs name = some (Json.optional .ofDecimal o)) :
      (optional name decimal).run fs = .ok o :=
    optional_written (fun d hd => decimal_ofDecimal (hr d hd)) (fun _ => Json.noConfusion) hl
  have hsnapshot {fs : Fields} {name : String} {o : Option Fields}
      (hl : Fields.lookup fs name = some (Json.optional .object o)) :
      (optional name fields).run fs = .ok o :=
    optional_written (fun _ _ => rfl) (fun _ => Json.noConfusion) hl
  have hword {α : Type} {word? : String → Option α} {name : α → String} {a : α}
      (hn : word? (name a) = some a) : oneOf word? (.text (name a)) = .ok a := by
    simp only [oneOf, hn]
  have hid : (required "id" text).run e.toFields = .ok e.id := required_eq_ok.2 ⟨_, rfl, rfl⟩
  have hdetail : (required "payroll_detail_id" text).run e.toFields = .ok e.detail :=
    required_eq_ok.2 ⟨_, rfl, rfl⟩
  have hkind : (required "concept_type" (oneOf AuditKind.ofName?)).run e.toFields = .ok e.kind :=
    required_eq_ok.2 ⟨_, rfl, hword (AuditKind.ofName?_name e.kind)⟩
  have hconcept : (required "concept_code" text).run e.toFields = .ok e.concept :=
    required_eq_ok.2 ⟨_, rfl, rfl⟩
  have hinputs : (defaulted "input_values" [] fields).run e.toFields = .ok e.inputs :=
    defaulted_eq_ok.2 rfl
  have hrule : (required "rule_applied" text).run e.toFields = .ok e.rule := required_eq_ok.2 ⟨_, rfl, rfl⟩
  have hversion : (required "rule_version" text).run e.toFields = .ok e.ruleVersion :=
    required_eq_ok.2 ⟨_, rfl, rfl⟩
  have hyear : (required "fiscal_year" integer).run e.toFields = .ok e.fiscalYear :=
    required_eq_ok.2 ⟨_, rfl, rfl⟩
  have hperiod : (required "period_type" (oneOf PeriodKind.ofName?)).run e.toFields =
      .ok e.periodKind :=
    required_eq_ok.2 ⟨_, rfl, hword (PeriodKind.ofName?_name e.periodKind)⟩
  have hat : (required "calculated_at" instant).run e.toFields = .ok e.calculatedAt :=
    required_eq_ok.2 ⟨_, rfl, instant_text e.calculatedAt⟩
  rw [FieldReader.run_eq_ok]
  unfold fieldReader
  iterate 23 rw [FieldReader.exists_run_seq]
  rw [FieldReader.exists_run_map]
  exact ⟨_, hid, _, hdetail, _, htext rfl, _, htext rfl, _, hkind, _, hconcept, _, hinputs, _,
    required_eq_ok.2 ⟨_, rfl, decimal_ofDecimal h.base⟩, _, hamount h.lower rfl, _,
    hamount h.excess rfl, _, hamount h.marginal rfl, _, hamount h.fixedFee rfl, _,
    required_eq_ok.2 ⟨_, rfl, decimal_ofDecimal h.result⟩, _, hrule, _, hversion, _, htext rfl, _,
    hyear, _, hperiod, _, hat, _, htext rfl, _, hsnapshot rfl, _, hsnapshot rfl, _,
    hsnapshot rfl, _, htext rfl, rfl⟩

theorem load_toJson (h : e.Readable) : load e.toJson = .ok e := by
  refine load_eq_ok.2 (record_eq_ok.2 ⟨_, rfl, ?_, run_toFields h, rfl⟩)
  intro f hf
  have hn : f.1 ∈ Fields.names e.toFields := List.mem_map_of_mem hf
  exact hn

/-- The hash of an entry is that of what it vouches for. -/
theorem snapshotHash_withSnapshots (e : AuditEntry) (input output rules : Fields) :
    (e.withSnapshots input output rules).snapshotHash =
      some (e.withSnapshots input output rules).hashedContent.checksum := rfl

end AuditEntry

end Payroll
