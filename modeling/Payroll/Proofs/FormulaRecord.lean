import Mathlib
import Payroll.Proofs.RecordFields
import Payroll.Version.Basic

/-!
Versions of formulas as records: what reading one settles, and reading back what was written.
-/

namespace Payroll

open Record Result

theorem ConceptKind.ofName?_name (k : ConceptKind) : ofName? k.name = some k := by
  cases k <;> rfl

theorem LimitUnit.ofName?_name (u : LimitUnit) : ofName? u.name = some u := by
  cases u <;> rfl

namespace FormulaVersion

variable {fs : Fields} {j : Json} {v : FormulaVersion}

/-- Every field of a version is what its reader finds. -/
structure ReadFrom (fs : Fields) (v : FormulaVersion) : Prop where
  id : (required "id" text).run fs = .ok v.id
  company : (required "company_id" nonemptyText).run fs = .ok v.company
  concept : (required "concept_code" nonemptyText).run fs = .ok v.concept
  kind : (required "concept_type" (oneOf ConceptKind.ofName?)).run fs = .ok v.kind
  name : (required "name" nonemptyText).run fs = .ok v.name
  description : (optional "description" text).run fs = .ok v.description
  expression : (required "expression" nonemptyText).run fs = .ok v.expression
  taxable : (defaulted "is_taxable" true truth).run fs = .ok v.taxable
  exempt : (defaulted "is_exempt" false truth).run fs = .ok v.exempt
  exemptLimit : (optional "exempt_limit" (atLeast 0 decimal)).run fs = .ok v.exemptLimit
  limitUnit : (optional "exempt_limit_type" (oneOf LimitUnit.ofName?)).run fs = .ok v.limitUnit
  satKey : (optional "sat_concept_key" text).run fs = .ok v.satKey
  fiscalYear : (optional "fiscal_year" (integerAtLeast 2000 (integerAtMost 2100 integer))).run fs =
    .ok v.fiscalYear
  validFrom : (optional "valid_from" date).run fs = .ok v.validFrom
  validTo : (optional "valid_to" date).run fs = .ok v.validTo
  version : (defaulted "version" 1 (integerAtLeast 1 integer)).run fs = .ok v.version
  active : (defaulted "is_active" true truth).run fs = .ok v.active
  createdAt : (required "created_at" instant).run fs = .ok v.createdAt
  createdBy : (optional "created_by" text).run fs = .ok v.createdBy
  supersededAt : (optional "superseded_at" instant).run fs = .ok v.supersededAt
  supersededBy : (optional "superseded_by" text).run fs = .ok v.supersededBy

theorem run_fieldReader : fieldReader.run fs = .ok v ↔ ReadFrom fs v := by
  rw [FieldReader.run_eq_ok]
  unfold fieldReader
  iterate 20 rw [FieldReader.exists_run_seq]
  rw [FieldReader.exists_run_map]
  constructor
  · rintro ⟨_, h1, _, h2, _, h3, _, h4, _, h5, _, h6, _, h7, _, h8, _, h9, _, h10, _, h11, _, h12,
      _, h13, _, h14, _, h15, _, h16, _, h17, _, h18, _, h19, _, h20, _, h21, rfl⟩
    exact ⟨h1, h2, h3, h4, h5, h6, h7, h8, h9, h10, h11, h12, h13, h14, h15, h16, h17, h18, h19,
      h20, h21⟩
  · rintro ⟨h1, h2, h3, h4, h5, h6, h7, h8, h9, h10, h11, h12, h13, h14, h15, h16, h17, h18, h19,
      h20, h21⟩
    exact ⟨_, h1, _, h2, _, h3, _, h4, _, h5, _, h6, _, h7, _, h8, _, h9, _, h10, _, h11, _, h12,
      _, h13, _, h14, _, h15, _, h16, _, h17, _, h18, _, h19, _, h20, _, h21, rfl⟩

theorem load_eq_ok : load j = .ok v ↔
    ∃ fs, j = .object fs ∧ (∀ f ∈ fs, f.1 ∈ fieldReader.names) ∧ ReadFrom fs v ∧ v.rule = none := by
  rw [load, Record.load_eq_ok, read, record_eq_ok]
  simp only [run_fieldReader]

/-- A version written as fields and read from them again. -/
theorem ReadFrom.rewritten (h : ReadFrom fs v) : ReadFrom v.toFields v where
  id := required_rewritten lossless_text h.id rfl
  company := required_rewritten lossless_nonemptyText h.company rfl
  concept := required_rewritten lossless_nonemptyText h.concept rfl
  kind := required_rewritten (lossless_oneOf ConceptKind.ofName?_name) h.kind rfl
  name := required_rewritten lossless_nonemptyText h.name rfl
  description := optional_rewritten lossless_text (fun _ => Json.noConfusion) h.description rfl
  expression := required_rewritten lossless_nonemptyText h.expression rfl
  taxable := defaulted_rewritten lossless_truth rfl h.taxable rfl
  exempt := defaulted_rewritten lossless_truth rfl h.exempt rfl
  exemptLimit := optional_rewritten (lossless_bounded lossless_decimal)
    (fun _ => Json.noConfusion) h.exemptLimit rfl
  limitUnit := optional_rewritten (lossless_oneOf LimitUnit.ofName?_name)
    (fun _ => Json.noConfusion) h.limitUnit rfl
  satKey := optional_rewritten lossless_text (fun _ => Json.noConfusion) h.satKey rfl
  fiscalYear := optional_rewritten (lossless_bounded (lossless_bounded lossless_integer))
    (fun _ => Json.noConfusion) h.fiscalYear rfl
  validFrom := optional_rewritten lossless_date (fun _ => Json.noConfusion) h.validFrom rfl
  validTo := optional_rewritten lossless_date (fun _ => Json.noConfusion) h.validTo rfl
  version := defaulted_rewritten (lossless_bounded lossless_integer) rfl h.version rfl
  active := defaulted_rewritten lossless_truth rfl h.active rfl
  createdAt := required_rewritten lossless_instant h.createdAt rfl
  createdBy := optional_rewritten lossless_text (fun _ => Json.noConfusion) h.createdBy rfl
  supersededAt := optional_rewritten lossless_instant (fun _ => Json.noConfusion) h.supersededAt rfl
  supersededBy := optional_rewritten lossless_text (fun _ => Json.noConfusion) h.supersededBy rfl

/-- The terms of a version: the changed ones, and for the others those of an earlier version. -/
structure Amended (changes : Fields) (old new : FormulaVersion) : Prop where
  kind : Overridden changes "concept_type" (oneOf ConceptKind.ofName?) old.kind new.kind
  name : Overridden changes "name" nonemptyText old.name new.name
  description : Overridden changes "description" (orNull text) old.description new.description
  expression : Overridden changes "expression" nonemptyText old.expression new.expression
  taxable : Overridden changes "is_taxable" truth old.taxable new.taxable
  exempt : Overridden changes "is_exempt" truth old.exempt new.exempt
  exemptLimit : Overridden changes "exempt_limit" (orNull (atLeast 0 decimal)) old.exemptLimit
    new.exemptLimit
  limitUnit : Overridden changes "exempt_limit_type" (orNull (oneOf LimitUnit.ofName?))
    old.limitUnit new.limitUnit
  satKey : Overridden changes "sat_concept_key" (orNull text) old.satKey new.satKey
  fiscalYear : Overridden changes "fiscal_year"
    (orNull (integerAtLeast 2000 (integerAtMost 2100 integer))) old.fiscalYear new.fiscalYear
  validFrom : Overridden changes "valid_from" (orNull date) old.validFrom new.validFrom
  validTo : Overridden changes "valid_to" (orNull date) old.validTo new.validTo

end FormulaVersion

end Payroll
