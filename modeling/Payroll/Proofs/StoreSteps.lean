import Mathlib
import Payroll.Proofs.FormulaRecord
import Payroll.Version.Operation

/-!
What a change to stored formulas does when it succeeds.
-/

namespace Payroll

open Record Result Version

namespace FormulaStore

variable {store next : FormulaStore} {company concept : String} {rows : List FormulaVersion}

theorem scope_key (store : FormulaStore) (company concept : String) :
    (store.scope company concept).company = company ∧
      (store.scope company concept).concept = concept := by
  rw [scope]
  induction store.scopes with
  | nil => exact ⟨rfl, rfl⟩
  | cons s ss ih =>
      by_cases h : s.company = company ∧ s.concept = concept
      · simp only [scopeIn, h, and_self, if_true]
      · simp only [scopeIn, h, if_false, ih, and_self]

theorem scope_withRows : (store.withRows company concept rows).scope company concept =
    ⟨company, concept, (store.scope company concept).revision + 1, rows⟩ :=
  scopeIn_putScope_self ⟨company, concept, _, rows⟩ store.scopes

theorem scope_withRows_of_ne {company' concept' : String}
    (h : ¬(company = company' ∧ concept = concept')) :
    (store.withRows company concept rows).scope company' concept' =
      store.scope company' concept' :=
  scopeIn_putScope_of_ne ⟨company, concept, _, rows⟩ store.scopes h

theorem write_eq_ok {expected : Int} : store.write company concept expected rows = .ok next ↔
    (store.scope company concept).revision = expected ∧
      next = store.withRows company concept rows := by
  unfold write withRows
  simp only
  split
  · next h =>
    subst h
    simp [eq_comm]
  · next h => simp [h]

theorem scopeOf_eq_ok {s : Scope} (h : store.scopeOf (.text company) (.text concept) = .ok s) :
    s = store.scope company concept := by
  obtain ⟨c, hc, h⟩ := bind_eq_ok.1 h
  obtain ⟨k, hk, h⟩ := bind_eq_ok.1 h
  cases h
  rw [(Key.check_eq_ok.1 hc).2, (Key.check_eq_ok.1 hk).2]

theorem find_eq_ok {formula : Json} {v : FormulaVersion} (h : store.find formula = .ok v) :
    formula = .text v.id := by
  unfold find at h
  simp only at h
  split at h
  · next w hw =>
    cases h
    obtain ⟨s, hs, hf⟩ := Option.bind_eq_some_iff.1 hw
    have hid : v.id = s := by simpa using List.find?_some hf
    cases formula with
    | text t =>
        cases hs
        rw [hid]
    | _ => cases hs
  · cases h

theorem otherFields_eq_nil {fields : Fields} (h : otherFields fields = []) :
    ∀ n ∈ Fields.names fields, n ∈ versionedFields := by
  have hperm := List.mergeSort_perm
    ((Fields.names fields).filter fun n => !versionedFields.contains n) fun a b => decide (a ≤ b)
  rw [show List.mergeSort _ _ = [] from h, List.nil_perm] at hperm
  intro n hn
  simpa using List.filter_eq_nil_iff.1 hperm n hn

theorem lookup_eq_none_of_otherFields {fields : Fields} {n : String} (h : otherFields fields = [])
    (hn : n ∉ versionedFields) : Fields.lookup fields n = none :=
  Fields.lookup_eq_none.2 fun hm => hn (otherFields_eq_nil h n hm)

/-- Nothing active collides with a coverage, one row left out by its id. -/
theorem conflicts_eq_nil {c : Coverage} {except : Option String} : conflicts rows c except = [] ↔
    ∀ v ∈ rows, v.active = true → some v.id ≠ except → collision? c v = none := by
  simp only [conflicts, List.filterMap_eq_nil_iff]
  constructor
  · intro h v hv ha he
    have := h v hv
    simpa [ha, he] using this
  · intro h v hv
    by_cases hc : v.active = true ∧ some v.id ≠ except
    · simp [hc.1, hc.2, h v hv hc.1 hc.2]
    · rw [if_neg (by simpa using hc)]

/-- A row as an operation adds it. -/
structure Added (id : String) (now : Instant) (row : FormulaVersion) : Prop where
  id_eq : row.id = id
  active : row.active = true
  createdAt : row.createdAt = now
  supersededAt : row.supersededAt = none
  supersededBy : row.supersededBy = none
  readable : row.ReadFrom row.toFields
  rule : row.rule = none

theorem row_eq_ok {d : Draft} {id : String} {now : Instant} {row : FormulaVersion}
    (hd : otherFields d.fields = []) (h : d.row id now = .ok row) :
    Added id now row ∧ d.company = .text row.company ∧ d.concept = .text row.concept ∧
      d.expression = .text row.expression ∧ row.version = 1 := by
  obtain ⟨fs, hfs, -, hrow, hrule⟩ := FormulaVersion.load_eq_ok.1 h
  cases hfs
  have hat := lookup_eq_none_of_otherFields hd (n := "superseded_at") (by decide)
  have hby := lookup_eq_none_of_otherFields hd (n := "superseded_by") (by decide)
  obtain ⟨c, hc, hcompany⟩ := required_eq_ok.1 hrow.company
  obtain ⟨k, hk, hconcept⟩ := required_eq_ok.1 hrow.concept
  obtain ⟨e, he, hexpression⟩ := required_eq_ok.1 hrow.expression
  cases hc
  cases hk
  cases he
  refine ⟨⟨?_, ?_, ?_, ?_, ?_, hrow.rewritten, hrule⟩, ?_, ?_, ?_, ?_⟩
  · exact required_value hrow.id rfl rfl
  · exact defaulted_value hrow.active rfl rfl
  · exact required_value hrow.createdAt rfl (instant_text now)
  · exact optional_absent hrow.supersededAt hat
  · exact optional_absent hrow.supersededBy hby
  · exact (nonemptyText_eq_ok.1 hcompany).1
  · exact (nonemptyText_eq_ok.1 hconcept).1
  · exact (nonemptyText_eq_ok.1 hexpression).1
  · exact defaulted_value hrow.version rfl rfl

/-- The fields that every new version gets. -/
def stamp (version : Int) (id : String) (now : Instant) (createdBy : Json) : Fields := [
  ("id", .text id),
  ("version", .int version),
  ("is_active", .bool true),
  ("created_at", .text now.text),
  ("created_by", createdBy),
  ("superseded_at", .null),
  ("superseded_by", .null)]

section Successor

variable {v row : FormulaVersion} {id : String} {now : Instant} {changes fs : Fields}
  {createdBy : Json} {n : String} {version : Int}

theorem lookup_stamp_eq_none (hn : n ∈ versionedFields) :
    Fields.lookup (stamp version id now createdBy) n = none := by
  have hdisjoint : ∀ m ∈ versionedFields, m ∉ ["id", "version", "is_active", "created_at",
    "created_by", "superseded_at", "superseded_by"] := by decide
  exact Fields.lookup_eq_none.2 fun hs => hdisjoint n hn hs

theorem lookup_stamped (hn : (Fields.names changes).Nodup) (n : String) :
    Fields.lookup (Fields.overlay (Fields.overlay v.toFields changes)
        (stamp version id now createdBy)) n =
      (Fields.lookup (stamp version id now createdBy) n).or
        ((Fields.lookup changes n).or (Fields.lookup v.toFields n)) := by
  have hstamp : (Fields.names (stamp version id now createdBy)).Nodup := by
    simp [Fields.names, stamp]
  rw [Fields.lookup_overlay hstamp, Fields.lookup_overlay hn]

/-- The terms of a row that is read with the changed ones in the place of those of the old version. -/
theorem amended_of_lookup (hv : v.ReadFrom v.toFields) (hrow : row.ReadFrom fs)
    (hterms : ∀ n ∈ versionedFields, Fields.lookup fs n =
      (Fields.lookup changes n).or (Fields.lookup v.toFields n)) : v.Amended changes row where
  kind := overridden_required (hterms _ (by decide)) hv.kind hrow.kind
  name := overridden_required (hterms _ (by decide)) hv.name hrow.name
  description := overridden_optional (hterms _ (by decide)) hv.description hrow.description
  expression := overridden_required (hterms _ (by decide)) hv.expression hrow.expression
  taxable := overridden_defaulted (hterms _ (by decide)) hv.taxable hrow.taxable
  exempt := overridden_defaulted (hterms _ (by decide)) hv.exempt hrow.exempt
  exemptLimit := overridden_optional (hterms _ (by decide)) hv.exemptLimit hrow.exemptLimit
  limitUnit := overridden_optional (hterms _ (by decide)) hv.limitUnit hrow.limitUnit
  satKey := overridden_optional (hterms _ (by decide)) hv.satKey hrow.satKey
  fiscalYear := overridden_optional (hterms _ (by decide)) hv.fiscalYear hrow.fiscalYear
  validFrom := overridden_optional (hterms _ (by decide)) hv.validFrom hrow.validFrom
  validTo := overridden_optional (hterms _ (by decide)) hv.validTo hrow.validTo

theorem successor_eq_ok (hv : v.ReadFrom v.toFields) (hn : (Fields.names changes).Nodup)
    (hc : otherFields changes = []) (h : successor v id now changes createdBy = .ok row) :
    Added id now row ∧ row.company = v.company ∧ row.concept = v.concept ∧
      row.version = v.version + 1 ∧ v.Amended changes row := by
  obtain ⟨fs, hfs, -, hrow, hrule⟩ := FormulaVersion.load_eq_ok.1 h
  have hl (n : String) : Fields.lookup fs n =
      (Fields.lookup (stamp (v.version + 1) id now createdBy) n).or
        ((Fields.lookup changes n).or (Fields.lookup v.toFields n)) :=
    Json.object.inj hfs ▸ lookup_stamped hn n
  have hterms (n : String) (hm : n ∈ versionedFields) : Fields.lookup fs n =
      (Fields.lookup changes n).or (Fields.lookup v.toFields n) := by
    rw [hl, lookup_stamp_eq_none hm, Option.none_or]
  -- the scope is no versioned field, so that it comes from the old version
  have hcompany : Fields.lookup fs "company_id" = some (.text v.company) := by
    rw [hl, lookup_eq_none_of_otherFields hc (by decide)]
    rfl
  have hconcept : Fields.lookup fs "concept_code" = some (.text v.concept) := by
    rw [hl, lookup_eq_none_of_otherFields hc (by decide)]
    rfl
  refine ⟨⟨?_, ?_, ?_, ?_, ?_, hrow.rewritten, hrule⟩, ?_, ?_, ?_, amended_of_lookup hv hrow hterms⟩
  · exact required_value hrow.id (hl _) rfl
  · exact defaulted_value hrow.active (hl _) rfl
  · exact required_value hrow.createdAt (hl _) (instant_text now)
  · exact optional_value hrow.supersededAt (hl _) rfl
  · exact optional_value hrow.supersededBy (hl _) rfl
  · obtain ⟨_, hj, hr⟩ := required_eq_ok.1 hv.company
    cases hj
    exact required_value hrow.company hcompany hr
  · obtain ⟨_, hj, hr⟩ := required_eq_ok.1 hv.concept
    cases hj
    exact required_value hrow.concept hconcept hr
  · have hversion := hrow.version
    rw [defaulted_eq_ok, hl] at hversion
    exact (Except.ok.inj (bounded_eq_ok.1 hversion).1).symm

end Successor

def Accepted (v : FormulaVersion) : Prop := ∃ tree, Formula.accept v.expression = .ok tree

theorem acceptExpression_eq_ok {s : String} (h : acceptExpression (.text s) = .ok ()) :
    ∃ tree, Formula.accept s = .ok tree := by
  obtain ⟨t, ht, h⟩ := bind_eq_ok.1 h
  cases ht
  obtain ⟨tree, htree, -⟩ := bind_eq_ok.1 h
  exact ⟨tree, htree⟩

/-- What a change does to the rows of the scope that it is made in. -/
inductive Edit (company concept : String) (rows : List FormulaVersion) :
    Operation → List FormulaVersion → Prop
  | created {id : String} {now : Instant} {d : Draft} {row : FormulaVersion}
      (company_eq : d.company = .text company ∧ row.company = company)
      (concept_eq : d.concept = .text concept ∧ row.concept = concept)
      (added : Added id now row) (version : row.version = 1) (accepted : Accepted row)
      (free : conflicts rows (coverageOf row) none = []) :
      Edit company concept rows (.create id now d) (rows ++ [row])
  | superseded {id : String} {now : Instant} {changes : Fields} {createdBy : Json}
      {old row : FormulaVersion} (mem : old ∈ rows) (active : old.active = true)
      (scope_eq : row.company = old.company ∧ row.concept = old.concept)
      (added : Added id now row) (version : row.version = old.version + 1)
      (amended : old.Amended (Fields.overlay [] changes) row) (accepted : Accepted row)
      (free : conflicts rows (coverageOf row) (some old.id) = []) :
      Edit company concept rows (.newVersion id now (.text old.id) changes createdBy)
        (rows.map (fun v => if v.id = old.id then supersede old now id else v) ++ [row])
  | deleted {isReferenced : String → Except Fault Bool} {row : FormulaVersion}
      (mem : row ∈ rows) (active : row.active = true)
      (successorOfNone : ∀ v ∈ rows, v.supersededBy ≠ some row.id)
      (unreferenced : isReferenced row.id = .ok false) :
      Edit company concept rows (.delete isReferenced (.text row.id))
        (rows.filter fun v => v.id != row.id)

theorem create_eq_ok {id : String} {now : Instant} {d : Draft} {row : FormulaVersion}
    (h : store.create id now d = .ok (row, next)) :
    ∃ rows', Edit row.company row.concept (store.scope row.company row.concept).rows
        (.create id now d) rows' ∧ next = store.withRows row.company row.concept rows' := by
  obtain ⟨_, -, h⟩ := bind_eq_ok.1 h
  obtain ⟨_, hfields, h⟩ := bind_eq_ok.1 h
  obtain ⟨_, haccept, h⟩ := bind_eq_ok.1 h
  obtain ⟨row', hrow, h⟩ := bind_eq_ok.1 h
  obtain ⟨scope, hscope, h⟩ := bind_eq_ok.1 h
  obtain ⟨_, hfree, h⟩ := bind_eq_ok.1 h
  obtain ⟨next', hwrite, h⟩ := bind_eq_ok.1 h
  cases h
  cases scopeOf_eq_ok hscope
  obtain ⟨-, hnext⟩ := write_eq_ok.1 hwrite
  rw [ensure_eq_ok, List.isEmpty_iff] at hfields hfree
  obtain ⟨hadded, hcompany, hconcept, hexpression, hversion⟩ := row_eq_ok hfields hrow
  rw [hexpression] at haccept
  exact ⟨_, .created ⟨hcompany, rfl⟩ ⟨hconcept, rfl⟩ hadded hversion
    (acceptExpression_eq_ok haccept) hfree, hnext⟩

theorem locate_eq_ok {formula : Json} {s : Scope} {v : FormulaVersion}
    (h : store.locate formula = .ok (s, v)) :
    ∃ company concept, s = store.scope company concept ∧ v ∈ s.rows ∧ formula = .text v.id := by
  obtain ⟨located, hfind, h⟩ := bind_eq_ok.1 h
  obtain ⟨scope, hscope, h⟩ := bind_eq_ok.1 h
  obtain ⟨current, hcurrent, h⟩ := bind_eq_ok.1 h
  cases h
  have hrow := existing_eq_ok.1 hcurrent
  have hid : v.id = located.id := by simpa using List.find?_some hrow
  refine ⟨located.company, located.concept, scopeOf_eq_ok hscope, List.mem_of_find?_eq_some hrow, ?_⟩
  rw [hid, find_eq_ok hfind]

/-- What is known of the stored rows wherever a change is made. -/
structure Sources (rows : List FormulaVersion) : Prop where
  readable : ∀ v ∈ rows, v.active = true → v.ReadFrom v.toFields
  accepted : ∀ v ∈ rows, Accepted v

theorem accepted_of_amended {changes : Fields} {old row : FormulaVersion}
    (hold : Accepted old) (hc : acceptChanged changes = .ok ()) (ha : old.Amended changes row) :
    Accepted row := by
  have hexpression := ha.expression
  unfold Overridden at hexpression
  unfold acceptChanged at hc
  split at hexpression
  · next j hj =>
    rw [hj] at hc
    rw [(nonemptyText_eq_ok.1 hexpression).1] at hc
    exact acceptExpression_eq_ok hc
  · unfold Accepted
    rw [hexpression]
    exact hold

theorem newVersion_eq_ok {id : String} {now : Instant} {formula createdBy : Json}
    {changes : Fields} {row : FormulaVersion}
    (hs : ∀ company concept, Sources (store.scope company concept).rows)
    (h : store.newVersion id now formula changes createdBy = .ok (row, next)) :
    ∃ company concept rows', Edit company concept (store.scope company concept).rows
        (.newVersion id now formula changes createdBy) rows' ∧
      next = store.withRows company concept rows' ∧ rows'.getLast? = some row := by
  obtain ⟨_, hfields, h⟩ := bind_eq_ok.1 h
  obtain ⟨_, hchanged, h⟩ := bind_eq_ok.1 h
  obtain ⟨⟨scope, current⟩, hlocate, h⟩ := bind_eq_ok.1 h
  obtain ⟨_, hactive, h⟩ := bind_eq_ok.1 h
  obtain ⟨row', hrow, h⟩ := bind_eq_ok.1 h
  obtain ⟨_, hfree, h⟩ := bind_eq_ok.1 h
  obtain ⟨next', hwrite, h⟩ := bind_eq_ok.1 h
  cases h
  obtain ⟨company, concept, rfl, hmem, rfl⟩ := locate_eq_ok hlocate
  obtain ⟨hcompany, hconcept⟩ := store.scope_key company concept
  rw [hcompany, hconcept] at hwrite
  obtain ⟨-, hnext⟩ := write_eq_ok.1 hwrite
  rw [ensure_eq_ok] at hactive
  rw [ensure_eq_ok, List.isEmpty_iff] at hfields hfree
  have hread := (hs company concept).readable current hmem hactive
  have hnodup : (Fields.names (Fields.overlay [] changes)).Nodup :=
    Fields.nodup_names_overlay (by simp [Fields.names])
  obtain ⟨hadded, hc, hk, hversion, hamended⟩ :=
    successor_eq_ok hread hnodup hfields hrow
  have haccepted := accepted_of_amended ((hs company concept).accepted current hmem) hchanged
    hamended
  rw [hadded.id_eq] at hnext
  exact ⟨company, concept, _,
    .superseded hmem hactive ⟨hc, hk⟩ hadded hversion hamended haccepted hfree, hnext,
    List.getLast?_concat⟩

theorem delete_eq_ok {isReferenced : String → Except Fault Bool} {formula : Json}
    (h : store.delete isReferenced formula = .ok next) :
    ∃ company concept rows', Edit company concept (store.scope company concept).rows
        (.delete isReferenced formula) rows' ∧ next = store.withRows company concept rows' := by
  obtain ⟨⟨scope, row⟩, hlocate, h⟩ := bind_eq_ok.1 h
  obtain ⟨_, hactive, h⟩ := bind_eq_ok.1 h
  obtain ⟨_, hnone, h⟩ := bind_eq_ok.1 h
  obtain ⟨referenced, hreferenced, h⟩ := bind_eq_ok.1 h
  obtain ⟨_, hfalse, hwrite⟩ := bind_eq_ok.1 h
  obtain ⟨company, concept, rfl, hmem, rfl⟩ := locate_eq_ok hlocate
  obtain ⟨hcompany, hconcept⟩ := store.scope_key company concept
  rw [hcompany, hconcept] at hwrite
  obtain ⟨-, hnext⟩ := write_eq_ok.1 hwrite
  rw [ensure_eq_ok] at hactive hnone hfalse
  refine ⟨company, concept, _, .deleted hmem hactive ?_ ?_, hnext⟩
  · intro v hv he
    simp only [Bool.not_eq_true', List.any_eq_false, beq_iff_eq] at hnone
    exact hnone v hv he
  · rw [hreferenced, show referenced = false by simpa using hfalse]

/-- A change that succeeds edits the rows of one scope. -/
theorem run_eq_ok {op : Operation} (hs : ∀ company concept, Sources (store.scope company concept).rows)
    (h : op.run store = .ok next) :
    ∃ company concept rows', Edit company concept (store.scope company concept).rows op rows' ∧
      next = store.withRows company concept rows' := by
  cases op with
  | create id now d =>
      obtain ⟨⟨row, next'⟩, hcreate, h⟩ := bind_eq_ok.1 h
      cases h
      obtain ⟨rows', hedit, hnext⟩ := create_eq_ok hcreate
      exact ⟨_, _, rows', hedit, hnext⟩
  | newVersion id now formula changes createdBy =>
      obtain ⟨⟨row, next'⟩, hnew, h⟩ := bind_eq_ok.1 h
      cases h
      obtain ⟨_, _, rows', hedit, hnext, -⟩ := newVersion_eq_ok hs hnew
      exact ⟨_, _, rows', hedit, hnext⟩
  | delete isReferenced formula => exact delete_eq_ok h

end FormulaStore

end Payroll
