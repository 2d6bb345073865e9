import Mathlib
import Payroll.Proofs.CalculatedConcepts
import Payroll.Proofs.DatedCalls

/-!
No concept is lost or computed twice on the way from the stored formulas to the audit trail: what a
calculation comes to covers the active versions, and what is recorded of it covers its amounts.
-/

namespace Payroll

open Result
open Recording (document made fault?)

/-- What an entry states of its amount. -/
def AuditEntry.amount (e : AuditEntry) : AuditKind × Decimal := (e.kind, e.result)

namespace Recording

variable {calculation : String} {n : Nat} {t : AuditTrail} {ps qs : List Pending}

theorem storeFrom_eq_ok {ids : List String} (h : (storeFrom calculation n t ps).2 = .ok ids) :
    (storeFrom calculation n t ps).1.documents =
      t.documents ++ (made calculation n ps).map document ∧
    ids = (made calculation n ps).map (·.id) ∧ fault? ps = none := by
  induction ps generalizing t n ids with
  | nil =>
      cases h
      exact ⟨(List.append_nil _).symm, rfl, rfl⟩
  | cons p ps ih =>
      cases p with
      | error f => cases h
      | ok make =>
          simp only [storeFrom] at h ⊢
          cases hrecord : t.record (make (entryId calculation n)) with
          | error f =>
              rw [hrecord] at h
              cases h
          | ok t' =>
              rw [hrecord] at h
              obtain ⟨-, -, -, rfl⟩ := record_eq_ok.1 hrecord
              obtain ⟨ids, hids, rfl⟩ := map_eq_ok.1 h
              obtain ⟨hdocs, rfl, hfault⟩ := ih hids
              exact ⟨hdocs.trans (List.append_assoc _ _ _), rfl, hfault⟩

theorem made_append (h : fault? ps = none) :
    made calculation n (ps ++ qs) = made calculation n ps ++ made calculation (n + ps.length) qs := by
  induction ps generalizing n with
  | nil => rfl
  | cons p ps ih =>
      cases p with
      | error f => cases h
      | ok make =>
          rw [List.cons_append, made, made, ih h, List.length_cons, Nat.add_right_comm]
          rfl

theorem exists_of_fault? (h : fault? ps = none) {p : Pending} (hp : p ∈ ps) :
    ∃ make, p = .ok make := by
  induction ps with
  | nil => cases hp
  | cons q qs ih =>
      cases q with
      | error f => cases h
      | ok make =>
          rcases List.mem_cons.1 hp with rfl | hp
          · exact ⟨make, rfl⟩
          · exact ih h hp

theorem mem_made {e : AuditEntry} (h : e ∈ made calculation n ps) :
    ∃ make, .ok make ∈ ps ∧ ∃ id, e = make id := by
  induction ps generalizing n with
  | nil => cases h
  | cons p ps ih =>
      cases p with
      | error f => cases h
      | ok make =>
          rcases List.mem_cons.1 h with rfl | h
          · exact ⟨make, List.mem_cons_self, _, rfl⟩
          · obtain ⟨make', hmake, hid⟩ := ih h
            exact ⟨make', List.mem_cons_of_mem _ hmake, hid⟩

/-- What entries state apart from their ids. -/
theorem map_made {α β : Type} {as : List α} {pend : α → Pending} {f : AuditEntry → β} {stated : α → β}
    (h : ∀ a ∈ as, ∃ make, pend a = .ok make ∧ ∀ id, f (make id) = stated a) :
    (made calculation n (as.map pend)).map f = as.map stated := by
  induction as generalizing n with
  | nil => rfl
  | cons a as ih =>
      obtain ⟨⟨make, hmake, hstated⟩, has⟩ := List.forall_mem_cons.1 h
      rw [List.map_cons, hmake, made, List.map_cons, List.map_cons, hstated, ih has]

variable {a : Author} {s : Calculation.Setting} {versions : List FormulaVersion} {c : Calculation}

theorem map_made_formulaEntries
    (h : ∀ amount ∈ c.perceptions ++ c.deductions,
      versionOf versions amount.version = amount.version) :
    (made calculation n ((c.perceptions ++ c.deductions).map (formulaEntry a s versions c))).map
      (fun e => (e.kind, e.rule, e.result)) =
    (c.perceptions ++ c.deductions).map fun amount =>
      (.formula, amount.version.id, amount.outcome.value) := by
  apply map_made
  intro amount hamount
  refine ⟨_, rfl, fun id => ?_⟩
  rw [h amount hamount]
  rfl

theorem map_amount_made_taxEntries {table : BracketTable IsrTerms}
    (h : s.tables.isrTable s.period.kind.name = .ok table) :
    (made calculation n (taxEntries a s c)).map AuditEntry.amount = [(.isr, c.isr.isr.isr)] := by
  rw [taxEntries, h]
  rfl

theorem map_amount_made_subsidyEntries
    (h : c.isr.subsidy.isSome = (s.tables.subsidyTable s.period.kind.name).isSome) :
    (made calculation n (subsidyEntries a s c)).map AuditEntry.amount =
      c.isr.subsidy.toList.map fun r => (.subsidy, r.subsidy) := by
  rw [subsidyEntries]
  cases hr : c.isr.subsidy with
  | none => rfl
  | some r =>
      cases ht : s.tables.subsidyTable s.period.kind.name with
      | none =>
          rw [hr, ht] at h
          cases h
      | some table => rfl

theorem exists_imssParts (h : fault? (imssEntries a s c) = none) :
    ∃ parts, imssParts c.imss = .ok parts := by
  cases hparts : imssParts c.imss with
  | ok parts => exact ⟨parts, rfl⟩
  | error f =>
      rw [imssEntries, hparts] at h
      cases h

theorem map_amount_made_imssEntries {parts : List ImssPart} (h : imssParts c.imss = .ok parts)
    (hfault : fault? (imssEntries a s c) = none) :
    (made calculation n (imssEntries a s c)).map AuditEntry.amount =
      parts.map fun p => (p.kind, p.amount) := by
  rw [imssEntries, h] at hfault ⊢
  apply map_made
  intro part hpart
  obtain ⟨make, hmake⟩ := exists_of_fault? hfault (List.mem_map_of_mem hpart)
  refine ⟨make, hmake, fun id => ?_⟩
  rw [(imssEntry_eq_ok hmake).2]
  rfl

theorem map_kind_eq (es : List AuditEntry) :
    es.map (·.kind) = (es.map AuditEntry.amount).map Prod.fst := by
  rw [List.map_map]
  rfl

theorem kind_imssParts {r : ImssResult} {parts : List ImssPart} (h : imssParts r = .ok parts) :
    parts.map (·.kind) = .imssEmployee :: .imssEmployer ::
      if (r.quota? Imss.housingConcept).isSome then [.housing] else [] := by
  obtain ⟨_, -, h⟩ := bind_eq_ok.1 h
  obtain ⟨_, -, h⟩ := bind_eq_ok.1 h
  obtain ⟨housing, hhousing, h⟩ := bind_eq_ok.1 h
  cases h
  unfold housingPart at hhousing
  split at hhousing
  · next q hq =>
    obtain ⟨_, -, hhousing⟩ := bind_eq_ok.1 hhousing
    cases hhousing
    rw [hq]
    rfl
  · next hq =>
    cases hhousing
    rw [hq]
    rfl

theorem fault?_append_eq_none : fault? (ps ++ qs) = none ↔ fault? ps = none ∧ fault? qs = none := by
  rw [fault?_append, Option.or_eq_none_iff]

/-- The entries of a calculation: those of its concepts, then the tax and the contributions. -/
theorem exists_made_pending (hc : c.Complete s versions)
    (hv : ∀ v ∈ versions, versionOf versions v = v)
    (h : fault? (pending a s versions c) = none) : ∃ formulas taxes,
      made calculation n (pending a s versions c) = formulas ++ taxes ∧
      formulas.map (fun e => (e.kind, e.rule, e.result)) =
        ((c.perceptions ++ c.deductions).map fun amount =>
          (.formula, amount.version.id, amount.outcome.value)) ∧
      taxes.map (·.kind) =
        .isr :: (if (s.tables.subsidyTable s.period.kind.name).isSome then [.subsidy] else []) ++
          .imssEmployee :: .imssEmployer ::
            if s.tables.published.imss.any (·.concept == Imss.housingConcept) then [.housing]
            else [] := by
  obtain ⟨table, htable⟩ := hc.tax
  have hversion : ∀ amount ∈ c.perceptions ++ c.deductions,
      versionOf versions amount.version = amount.version := by
    intro amount hamount
    rcases List.mem_append.1 hamount with hm | hm
    · exact hv _ (hc.perceptions amount hm).1
    · exact hv _ (hc.deductions amount hm).1
  rw [pending, fault?_append_eq_none, fault?_append_eq_none, fault?_append_eq_none] at h
  obtain ⟨⟨⟨hformulas, htax⟩, hsubsidy⟩, himss⟩ := h
  rw [pending, List.append_assoc, List.append_assoc, made_append hformulas, made_append htax,
    made_append hsubsidy]
  refine ⟨_, _, rfl, map_made_formulaEntries hversion, ?_⟩
  obtain ⟨parts, hparts⟩ := exists_imssParts himss
  have hkinds := kind_imssParts hparts
  rw [hc.housing] at hkinds
  rw [map_kind_eq, ← hkinds, ← hc.subsidy]
  simp only [List.map_append (f := AuditEntry.amount), map_amount_made_taxEntries htable,
    map_amount_made_subsidyEntries hc.subsidy, map_amount_made_imssEntries hparts himss]
  cases c.isr.subsidy <;> simp

end Recording

namespace Engine

variable {c : Configuration} {now : Instant} {id : String} {r : Request} {e e' : Engine}
  {recorded : Recorded}

/-- The tables of a year do not depend on the rounding that was loaded. -/
theorem tablesFor_congr {year : Int} (h : e'.tables = e.tables) :
    (perform (tablesFor c year) e').1 = (perform (tablesFor c year) e).1 := by
  rw [tablesFor, perform_bind, perform_bind, perform_get, perform_get]
  simp only
  rw [h]
  split
  · rfl
  · rw [perform_bind, perform_bind, perform_lift, perform_lift]
    cases c.loadTables year <;> rfl

theorem calculate_eq_ok (h : perform (calculate c now id r) e = (.ok recorded, e')) :
    ∃ p e₁, perform (prepare c id r) e = (.ok p, e₁) ∧ recorded.calculation = p.calculation ∧
      (stored now p e₁).2 = .ok recorded.entries ∧ e'.trail = (stored now p e₁).1 := by
  rcases hp : perform (prepare c id r) e with ⟨f | p, e₁⟩
  · rw [perform_calculate_error hp] at h
    cases h
  · rw [perform_calculate_ok hp, Prod.mk.injEq] at h
    obtain ⟨h, rfl⟩ := h
    obtain ⟨entries, hentries, h⟩ := bind_eq_ok.1 h
    obtain ⟨_, -, h⟩ := bind_eq_ok.1 h
    cases h
    exact ⟨p, e₁, rfl, rfl, hentries, rfl⟩

/-- What a calculation comes to for the stored formulas of a company, and what is recorded of it. -/
structure Covered (store : FormulaStore) (r : Request) (tables : FiscalTables) (c : Calculation)
    (formulas taxes : List AuditEntry) : Prop where
  concepts : ∀ code, c.concepts.count code =
    if (store.scope r.company code).rows.any (·.active) then 1 else 0
  perceptions : ∀ a ∈ c.perceptions, a.version.kind = .perception
  deductions : ∀ a ∈ c.deductions, a.version.kind = .deduction
  formulaEntries : formulas.map (fun e => (e.kind, e.rule, e.result)) =
    (c.perceptions ++ c.deductions).map fun a => (.formula, a.version.id, a.outcome.value)
  taxEntries : taxes.map (·.kind) =
    .isr :: (if (tables.subsidyTable r.period.kind.name).isSome then [.subsidy] else []) ++
      .imssEmployee :: .imssEmployer ::
        if tables.published.imss.any (·.concept == Imss.housingConcept) then [.housing] else []
  stamped : ∀ e ∈ formulas ++ taxes, e.calculation = some c.id ∧ e.detail = c.detail

/-- Every concept with an active version is computed once, and every amount is recorded once. -/
theorem covered_of_calculate (hr : FormulaStore.Reachable e.store)
    (h : perform (calculate c now id r) e = (.ok recorded, e')) :
    ∃ tables formulas taxes, (perform (tablesFor c r.period.year) e).1 = .ok tables ∧
      e'.trail.documents = e.trail.documents ++ (formulas ++ taxes).map document ∧
      (formulas ++ taxes).map (·.id) = recorded.entries ∧
      Covered e.store r tables recorded.calculation formulas taxes := by
  obtain ⟨p, e₁, hprepare, hcalculation, hstored, htrail⟩ := calculate_eq_ok h
  obtain ⟨hstore, htrail₁, -⟩ := reads_prepare c id r e
  rw [hprepare] at hstore htrail₁
  obtain ⟨e₂, values, hpolicy, htables, -, hperiod, -, hversions, hcompute⟩ := prepare_eq_ok hprepare
  have htables₂ : e₂.tables = e.tables := by
    have hkeeps := keeps_policy (c := c) (P := fun e' => e'.tables = e.tables)
      (fun _ _ he => he) r.company e rfl
    rwa [hpolicy] at hkeeps
  rw [hstore] at hversions
  have hcomplete := Calculation.complete_of_compute hcompute
  obtain ⟨hdocs, hids, hfault⟩ := Recording.storeFrom_eq_ok hstored
  obtain ⟨formulas, taxes, hmade, hformulas, htaxes⟩ := Recording.exists_made_pending
    hcomplete (fun v hv => versionOf_eq hr hversions hv) hfault
  refine ⟨p.setting.tables, formulas, taxes, ?_, ?_, ?_, ?_⟩
  · rw [← tablesFor_congr htables₂, htables]
  · rw [htrail, ← hmade, ← htrail₁]
    exact hdocs
  · rw [hids, hmade]
  · rw [hcalculation]
    refine ⟨?_, fun a ha => (hcomplete.perceptions a ha).2,
      fun a ha => (hcomplete.deductions a ha).2, hformulas, hperiod ▸ htaxes, ?_⟩
    · intro code
      rw [hcomplete.concepts.count_eq]
      exact count_versionsOn hr hversions code
    · intro entry hentry
      rw [← hmade] at hentry
      obtain ⟨make, hmake, id, rfl⟩ := Recording.mem_made hentry
      exact ⟨(Recording.made_of_mem_pending hmake id).1,
        (Recording.ofDetail_pending _ _ _ _ make hmake id).1⟩

/-- A period in which the bonus is paid. -/
def bonusPeriod : Request :=
  { longPeriod with overrides := .object [("custom1", .text "250")] }

theorem bonusPeriod_covered : FormulaStore.Reachable FormulaStore.oneRow ∧ ∃ recorded e',
    perform (calculate { directory := "config" } FormulaStore.noon "c1" bonusPeriod)
      { store := FormulaStore.oneRow } = (.ok recorded, e') ∧
    recorded.calculation.perceptions.map (·.version.concept) = ["P010"] ∧
    recorded.entries = ["c1-001", "c1-002", "c1-003", "c1-004", "c1-005", "c1-006"] ∧
    ∃ tables formulas taxes,
      (perform (tablesFor { directory := "config" } bonusPeriod.period.year)
        { store := FormulaStore.oneRow }).1 = .ok tables ∧
      e'.trail.documents = (formulas ++ taxes).map document ∧
      (formulas ++ taxes).map (·.id) = recorded.entries ∧
      Covered FormulaStore.oneRow bonusPeriod tables recorded.calculation formulas taxes := by
  have hpaid : (perform (calculate { directory := "config" } FormulaStore.noon "c1" bonusPeriod)
      { store := FormulaStore.oneRow }).1.toOption.map (fun recorded =>
        (recorded.calculation.perceptions.map (·.version.concept), recorded.entries)) =
      some (["P010"], ["c1-001", "c1-002", "c1-003", "c1-004", "c1-005", "c1-006"]) := by
    decide +kernel
  rcases h : perform (calculate { directory := "config" } FormulaStore.noon "c1" bonusPeriod)
    { store := FormulaStore.oneRow } with ⟨outcome, e'⟩
  rw [h] at hpaid
  obtain ⟨recorded, hrecorded, hstated⟩ := Option.map_eq_some_iff.1 hpaid
  obtain rfl := ok_of_toOption hrecorded
  rw [Prod.mk.injEq] at hstated
  exact ⟨FormulaStore.reachable_oneRow, recorded, e', rfl, hstated.1, hstated.2,
    covered_of_calculate FormulaStore.reachable_oneRow h⟩

end Engine

end Payroll
