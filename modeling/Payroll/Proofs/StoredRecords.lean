import Mathlib
import Payroll.Proofs.DatedCalls
import Payroll.Proofs.RecordedEntries
import Payroll.Proofs.StoredScopes
import Payroll.Proofs.WritableRecords

/-!
Records that are stored as text are found again as they were, field by field. Whatever a scope or
the audit trail was given, no row or entry in it keeps the others from being read.
-/

namespace Payroll

open Record Result

/-- Read from its text, the data loads as `a`. -/
def Json.Reloads {ε α : Type} (load : Json → Except ε α) (j : Json) (a : α) : Prop :=
  (Json.ofText? j.indented).map load = some (.ok a)

theorem Json.Writable.reloads {ε α : Type} {load : Json → Except ε α} {j : Json} {a : α}
    (hj : j.Writable) (h : load j = .ok a) : j.Reloads load a := by
  rw [Reloads, ofText?_indented hj, Option.map_some, h]

namespace FormulaVersion

variable {v : FormulaVersion} {j : Json}

/-- The version passes its own checks. -/
structure Valid (v : FormulaVersion) : Prop where
  fields : v.ReadFrom v.toFields
  rule : v.rule = none

theorem valid_of_load (h : load j = .ok v) : v.Valid := by
  obtain ⟨fs, -, -, hv, hrule⟩ := load_eq_ok.1 h
  exact ⟨hv.rewritten, hrule⟩

theorem Valid.load_toJson (h : v.Valid) : load v.toJson = .ok v := by
  refine load_eq_ok.2 ⟨_, rfl, fun f hf => ?_, h.fields, h.rule⟩
  have hn : f.1 ∈ Fields.names v.toFields := List.mem_map_of_mem hf
  exact hn

/-- A version is superseded without another check, which it would pass. -/
theorem Valid.supersede (h : v.Valid) (now : Instant) (successor : String) :
    (FormulaStore.supersede v now successor).Valid where
  fields := { h.fields with
    active := defaulted_eq_ok.2 rfl
    supersededAt := optional_written (fun t _ => instant_text t) (fun _ => Json.noConfusion) rfl
    supersededBy := optional_written (fun _ _ => rfl) (fun _ => Json.noConfusion) rfl }
  rule := h.rule

/-- The version comes from data that has a text. -/
def Given (v : FormulaVersion) : Prop := ∃ j : Json, j.Writable ∧ load j = .ok v

theorem given_iff : v.Given ↔ v.Valid ∧ v.toJson.Writable := by
  constructor
  · rintro ⟨j, hj, h⟩
    exact ⟨valid_of_load h, writable_of_load hj h⟩
  · rintro ⟨hvalid, hwritable⟩
    exact ⟨v.toJson, hwritable, hvalid.load_toJson⟩

theorem Valid.digitCount_fiscalYear (h : v.Valid) :
    ∀ y ∈ v.fiscalYear, digitCount y.natAbs ≤ maxIntegerText := by
  intro y hy
  have hyear := h.fields.fiscalYear
  rw [Option.mem_def.1 hy] at hyear
  obtain ⟨j, hj⟩ := exists_read_of_optional hyear
  obtain ⟨hmost, hleast⟩ := bounded_eq_ok.1 hj
  have hle := of_decide_eq_true (bounded_eq_ok.1 hmost).2
  have hge := of_decide_eq_true hleast
  exact digitCount_le_maxIntegerText (k := 4) (by change y.natAbs < 10000; omega) (by decide)

theorem Valid.given (h : v.Valid) (hversion : digitCount v.version.natAbs ≤ maxIntegerText) :
    v.Given :=
  given_iff.2 ⟨h, writable_toJson h.digitCount_fiscalYear hversion⟩

end FormulaVersion

namespace AuditEntry

variable {e : AuditEntry} {j : Json} {input output rules : Fields}

/-- The entry comes from data that has a text. -/
def Given (e : AuditEntry) : Prop := ∃ j : Json, j.Writable ∧ load j = .ok e

theorem given_iff : e.Given ↔ e.Readable ∧ e.toJson.Writable := by
  constructor
  · rintro ⟨j, hj, h⟩
    exact ⟨readable_of_load h, writable_of_load hj h⟩
  · rintro ⟨hreadable, hwritable⟩
    exact ⟨e.toJson, hwritable, AuditEntry.load_toJson hreadable⟩

theorem Given.reloads (h : e.Given) : e.toJson.Reloads load e :=
  (given_iff.1 h).2.reloads (AuditEntry.load_toJson (given_iff.1 h).1)

theorem Given.withSnapshots (h : e.Given) (hinput : (Json.object input).Writable)
    (houtput : (Json.object output).Writable) (hrules : (Json.object rules).Writable) :
    (e.withSnapshots input output rules).Given := by
  obtain ⟨hreadable, hwritable⟩ := given_iff.1 h
  have hyear : (Json.int e.fiscalYear).Writable :=
    hwritable.of_lookup (show Fields.lookup e.toFields "fiscal_year" = _ from rfl)
  have hinputs : (Json.object e.inputs).Writable :=
    hwritable.of_lookup (show Fields.lookup e.toFields "input_values" = _ from rfl)
  refine given_iff.2 ⟨{ hreadable with }, writable_toJson ?_ hinputs ?_ ?_ ?_⟩
  · cases hyear with
    | int hyear => exact hyear
  · rintro _ ⟨⟩
    exact hinput
  · rintro _ ⟨⟩
    exact houtput
  · rintro _ ⟨⟩
    exact hrules

end AuditEntry

namespace Scope

variable {s : Scope}

theorem load_toJson (h : ∀ v ∈ s.rows, v.Valid) : load s.company s.concept s.toJson = .ok s := by
  have hrows : (s.rows.map FormulaVersion.toJson).mapM FormulaVersion.load = .ok s.rows :=
    mapM_map_eq_ok fun v hv => (h v hv).load_toJson
  refine bind_eq_ok.2 ⟨s.revision, rfl, bind_eq_ok.2 ⟨_, rfl, bind_eq_ok.2 ⟨s.rows, hrows, rfl⟩⟩⟩

theorem writable_toJson (hrevision : digitCount s.revision.natAbs ≤ maxIntegerText)
    (h : ∀ v ∈ s.rows, v.toJson.Writable) : s.toJson.Writable := by
  refine .object (by simp [Fields.names]) ?_
  simp only [List.forall_mem_cons, List.not_mem_nil, IsEmpty.forall_iff, implies_true, and_true]
  exact ⟨.int hrevision, .list (by simpa using h)⟩

theorem reloads (hrevision : digitCount s.revision.natAbs ≤ maxIntegerText)
    (h : ∀ v ∈ s.rows, v.Given) : s.toJson.Reloads (load s.company s.concept) s := by
  have hrows (v : FormulaVersion) (hv : v ∈ s.rows) := FormulaVersion.given_iff.1 (h v hv)
  exact (writable_toJson hrevision fun v hv => (hrows v hv).2).reloads
    (load_toJson fun v hv => (hrows v hv).1)

end Scope

namespace FormulaStore

variable {store next : FormulaStore} {op : Operation} {company concept : String}
  {rows rows' : List FormulaVersion}

theorem Edit.valid (h : Edit company concept rows op rows') (hrows : ∀ v ∈ rows, v.Valid) :
    ∀ v ∈ rows', v.Valid := by
  intro v hv
  cases h with
  | created _ _ added =>
      rcases List.mem_append.1 hv with hv | hv
      · exact hrows v hv
      · cases List.mem_singleton.1 hv
        exact ⟨added.readable, added.rule⟩
  | superseded mem _ _ added =>
      rcases List.mem_append.1 hv with hv | hv
      · obtain ⟨u, hu, rfl⟩ := List.mem_map.1 hv
        split
        · exact (hrows _ mem).supersede _ _
        · exact hrows u hu
      · cases List.mem_singleton.1 hv
        exact ⟨added.readable, added.rule⟩
  | deleted => exact hrows v (List.mem_of_mem_filter hv)

theorem valid_of_reachable (h : Reachable store) (company concept : String) :
    ∀ v ∈ (store.scope company concept).rows, v.Valid := by
  induction h generalizing company concept with
  | empty =>
      intro v hv
      rw [rows_empty] at hv
      cases hv
  | step op hr _ ih =>
      rcases after_cases hr op with he | ⟨company', concept', rows', hedit, he⟩
      · rw [he]
        exact ih company concept
      · rw [he]
        by_cases hsame : company' = company ∧ concept' = concept
        · obtain ⟨rfl, rfl⟩ := hsame
          rw [scope_withRows]
          exact hedit.valid (ih _ _)
        · rw [scope_withRows_of_ne hsame]
          exact ih company concept

end FormulaStore

namespace AuditTrail

open Recording (document)

variable {t : AuditTrail} {e : AuditEntry} {es : List AuditEntry} {c : Call} {cs : List Call}

/-- What a call is to store comes from data that has a text. -/
def Call.Given : Call → Prop
  | .record e => e.Given
  | .recordWithSnapshots e input output rules => e.Given ∧ (Json.object input).Writable ∧
      (Json.object output).Writable ∧ (Json.object rules).Writable

theorem Call.Given.entry (h : c.Given) : c.entry.Given := by
  cases c with
  | record e => exact h
  | recordWithSnapshots e input output rules =>
      obtain ⟨he, hinput, houtput, hrules⟩ := h
      exact he.withSnapshots hinput houtput hrules

/-- The trail read from the texts of its documents. -/
def reread (t : AuditTrail) : Option AuditTrail :=
  (t.documents.mapM fun d =>
    (Json.ofText? d.content.indented).map fun content => { d with content }).map AuditTrail.mk

end AuditTrail

def limitedRow : Json := .object [
  ("id", .text "f1"),
  ("company_id", .text "ACME"),
  ("concept_code", .text "P010"),
  ("concept_type", .text "PERCEPTION"),
  ("name", .text "Bono"),
  ("expression", .text "custom1"),
  ("exempt_limit", .text "1.5E+2"),
  ("exempt_limit_type", .text "UMA"),
  ("valid_from", .text "2025-01-15"),
  ("created_at", .text "2025-01-15T09:30:00.000250-06:00")]

def limitedBonus : FormulaVersion :=
  { FormulaStore.bonus with
    exemptLimit := some ⟨false, 15, 1⟩
    limitUnit := some .uma
    validFrom := some Instant.midJanuary.date
    createdAt :=
      { date := Instant.midJanuary.date
        hour := 9, minute := 30, second := 0, micro := 250, offset := some (-360) } }

theorem writable_limitedRow : limitedRow.Writable := by
  refine .object (by decide) ?_
  simp only [List.forall_mem_cons, List.not_mem_nil, IsEmpty.forall_iff, implies_true, and_true]
  exact ⟨.text _, .text _, .text _, .text _, .text _, .text _, .text _, .text _, .text _, .text _⟩

theorem load_limitedRow : FormulaVersion.load limitedRow = .ok limitedBonus :=
  ok_of_toOption (by decide +kernel)

theorem given_limitedBonus : limitedBonus.Given := ⟨_, writable_limitedRow, load_limitedRow⟩

def worked : Fields := [("days", .list [.int 15, .real (.finite ⟨false, 25, -1⟩), .null])]

theorem writable_worked : (Json.object worked).Writable := by
  refine .object (by decide) (List.forall_mem_singleton.2 (.list ?_))
  simp only [List.forall_mem_cons, List.not_mem_nil, IsEmpty.forall_iff, implies_true, and_true]
  exact ⟨.int (digitCount_le_maxIntegerText (k := 2) (by decide) (by decide)),
    .real (by decide +kernel), .null⟩

def workedEntry : AuditEntry :=
  { AuditTrail.payment "d1" with inputs := worked, result := ⟨true, 50, -2⟩ }

theorem given_workedEntry : workedEntry.Given := by
  refine AuditEntry.given_iff.2
    ⟨⟨by decide +kernel, nofun, nofun, nofun, nofun, by decide +kernel⟩, ?_⟩
  exact AuditEntry.writable_toJson (digitCount_le_maxIntegerText (k := 4) (by decide) (by decide))
    writable_worked nofun nofun nofun

end Payroll
