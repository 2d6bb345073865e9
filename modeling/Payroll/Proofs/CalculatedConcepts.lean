import Mathlib
import Payroll.Proofs.PendingReplay
import Payroll.Proofs.Resolution
import Payroll.Proofs.StoredScopes

/-!
What a calculation is made of. Each concept that has an active version is a perception, a deduction
or skipped, and the branches of the contributions are those that have rates.
-/

namespace Payroll

open Result

namespace Engine

variable {store : FormulaStore} {company code : String} {target : Date}
  {codes : List String} {versions : List FormulaVersion}

/-- A concept gives a version as soon as it has an active one. -/
theorem concept_of_resolved (hr : FormulaStore.Reachable store) {found : List (Option Version.Resolved)}
    (h : codes.mapM (fun code => store.resolveOn (.text company) (.text code) target) = .ok found) :
    (found.filterMap fun r => r.map (·.row)).map (·.concept) =
      codes.filter fun code => (store.scope company code).rows.any (·.active) := by
  induction codes generalizing found with
  | nil =>
      cases h
      rfl
  | cons code codes ih =>
      obtain ⟨r, rs, hcode, hrs, rfl⟩ := mapM_cons_eq_ok.1 h
      obtain ⟨s, hs, hresolve⟩ := bind_eq_ok.1 hcode
      obtain rfl := FormulaStore.scopeOf_eq_ok hs
      have hresolve := pure_eq_ok.1 hresolve
      rw [List.filter_cons, ← ih hrs, ← Version.isSome_resolve _ target, hresolve]
      cases r with
      | none => rfl
      | some r =>
          obtain ⟨hmem, -⟩ := Version.resolve_eq_some hresolve
          obtain ⟨-, hconcept⟩ := FormulaStore.placed_of_reachable hr company code r.row hmem
          exact congrArg (· :: _) hconcept

theorem count_versionsOn (hr : FormulaStore.Reachable store)
    (h : versionsOn store company target = .ok versions) (code : String) :
    (versions.map (·.concept)).count code =
      if (store.scope company code).rows.any (·.active) then 1 else 0 := by
  obtain ⟨codes, hcodes, h⟩ := bind_eq_ok.1 h
  obtain ⟨found, hfound, h⟩ := bind_eq_ok.1 h
  cases h
  rw [concept_of_resolved hr hfound]
  split
  · next hactive =>
    obtain ⟨v, hv, -⟩ := List.any_eq_true.1 hactive
    have hnodup := FormulaStore.nodup_concepts hr hcodes
    exact List.count_eq_one_of_mem (hnodup.filter _)
      (List.mem_filter.2 ⟨FormulaStore.mem_concepts hcodes hv, hactive⟩)
  · next hactive =>
    exact List.count_eq_zero.2 fun hmem => hactive (List.mem_filter.1 hmem).2

end Engine

namespace Calculation

variable {s : Setting} {values : Formula.Bindings} {versions : List FormulaVersion}

/-- A concept is evaluated or skipped. -/
theorem evaluateConcepts_perm {amounts : List ConceptAmount} {skipped : List SkippedConcept}
    (h : evaluateConcepts s values versions = .ok (amounts, skipped)) :
    (amounts.map (·.version.concept) ++ skipped.map (·.concept)).Perm (versions.map (·.concept)) := by
  induction versions generalizing amounts skipped with
  | nil =>
      cases h
      exact .nil
  | cons v vs ih =>
      simp only [evaluateConcepts] at h
      split at h
      · obtain ⟨⟨as, ss⟩, hrest, h⟩ := bind_eq_ok.1 h
        cases h
        exact (ih hrest).cons _
      · split at h
        · obtain ⟨⟨as, ss⟩, hrest, h⟩ := bind_eq_ok.1 h
          cases h
          exact List.perm_middle.trans ((ih hrest).cons _)
        · cases h

theorem ofKind_perm (versions : List FormulaVersion) :
    (ofKind .perception versions ++ ofKind .deduction versions).Perm versions := by
  have hother : ofKind .deduction versions =
      versions.filter fun v => !(v.kind == .perception) := by
    apply List.filter_congr
    intro v _
    cases v.kind <;> rfl
  rw [hother]
  exact List.filter_append_perm _ versions

/-- The concepts that a calculation has dealt with. -/
def concepts (c : Calculation) : List String :=
  c.perceptions.map (·.version.concept) ++ c.deductions.map (·.version.concept) ++
    c.skipped.map (·.concept)

end Calculation

namespace Imss

variable {policy : RoundingPolicy} {rates : List ImssRate} {values : FiscalValues}
  {risks : List (String × Amount)} {base : Amount} {days : Int} {risk : Json} {r : ImssResult}

theorem concept_of_quotas {capped : Decimal} {quotas : List ImssQuota}
    (h : rates.mapM (quota policy values capped days) = .ok quotas) :
    quotas.map (·.concept) = rates.map (·.concept) := by
  induction rates generalizing quotas with
  | nil =>
      cases h
      rfl
  | cons rate rates ih =>
      obtain ⟨q, qs, hq, hqs, rfl⟩ := mapM_cons_eq_ok.1 h
      obtain ⟨_, -, hq⟩ := bind_eq_ok.1 hq
      obtain ⟨_, -, hq⟩ := bind_eq_ok.1 hq
      obtain ⟨_, -, hq⟩ := bind_eq_ok.1 hq
      cases hq
      rw [List.map_cons, List.map_cons, ih hqs]

theorem concept_of_riskQuota {capped : Decimal} {quotas : List ImssQuota}
    (h : riskQuota policy capped days risks risk = .ok quotas) :
    ∀ q ∈ quotas, q.concept = riskConcept := by
  unfold riskQuota at h
  split at h
  · obtain ⟨_, -, h⟩ := bind_eq_ok.1 h
    obtain ⟨_, -, h⟩ := bind_eq_ok.1 h
    obtain ⟨_, -, h⟩ := bind_eq_ok.1 h
    cases h
    exact List.forall_mem_singleton.2 rfl
  · cases h
    exact List.forall_mem_nil _

/-- A branch other than that of the risk class is contributed to if there is a rate for it. -/
theorem isSome_quota? (h : calculate policy rates values risks base days risk = .ok r)
    {concept : String} (hc : concept ≠ riskConcept) :
    (r.quota? concept).isSome = rates.any fun rate => rate.concept == concept := by
  obtain ⟨-, -, -, -, quotas, rest, hquotas, hrest, hr⟩ := calculate_eq_ok h
  have hmap : concept ∈ quotas.map (·.concept) ↔ concept ∈ rates.map (·.concept) := by
    rw [concept_of_quotas hquotas]
    simp only [List.mem_map, List.mem_filter, bne_iff_ne]
    constructor
    · rintro ⟨rate, ⟨hrate, -⟩, he⟩
      exact ⟨rate, hrate, he⟩
    · rintro ⟨rate, hrate, rfl⟩
      exact ⟨rate, ⟨hrate, hc⟩, rfl⟩
  have hnone : concept ∉ rest.map (·.concept) := by
    intro hmem
    obtain ⟨q, hq, rfl⟩ := List.mem_map.1 hmem
    exact hc (concept_of_riskQuota hrest q hq)
  have hall : concept ∈ r.quotas.map (·.concept) ↔ concept ∈ rates.map (·.concept) := by
    rw [hr, List.map_append, List.mem_append, hmap, or_iff_left hnone]
  rw [Bool.eq_iff_iff, ImssResult.quota?, List.find?_isSome, List.any_eq_true]
  simpa only [List.mem_map, beq_iff_eq] using hall

end Imss

/-- What a calculation has of the versions in effect, of the subsidy and of the housing fund. -/
structure Calculation.Complete (s : Calculation.Setting) (versions : List FormulaVersion)
    (c : Calculation) : Prop where
  concepts : c.concepts.Perm (versions.map (·.concept))
  perceptions : ∀ a ∈ c.perceptions, a.version ∈ versions ∧ a.version.kind = .perception
  deductions : ∀ a ∈ c.deductions, a.version ∈ versions ∧ a.version.kind = .deduction
  tax : ∃ table, s.tables.isrTable s.period.kind.name = .ok table
  subsidy : c.isr.subsidy.isSome = (s.tables.subsidyTable s.period.kind.name).isSome
  housing : (c.imss.quota? Imss.housingConcept).isSome =
    s.tables.published.imss.any (·.concept == Imss.housingConcept)

theorem Calculation.complete_of_compute {cfg : Configuration} {s : Setting}
    {values : Formula.Bindings} {detail id : String} {versions : List FormulaVersion}
    {c : Calculation} (h : compute cfg s values detail id versions = .ok c) :
    c.Complete s versions := by
  obtain ⟨-, -, ⟨steps⟩⟩ := compute_eq_ok h
  have hkind {kind : ConceptKind} {values : Formula.Bindings} {amounts : List ConceptAmount}
      {skipped : List SkippedConcept}
      (he : evaluateConcepts s values (ofKind kind versions) = .ok (amounts, skipped)) :
      ∀ a ∈ amounts, a.version ∈ versions ∧ a.version.kind = kind := by
    intro a ha
    obtain ⟨hmem, hk⟩ := List.mem_filter.1 (evaluateConcepts_eq_ok he a ha).1
    exact ⟨hmem, beq_iff_eq.1 hk⟩
  refine ⟨?_, hkind steps.perceptions, hkind steps.deductions, ⟨steps.table, steps.isrTable⟩,
    (Isr.withSubsidy_eq_ok steps.tax).2.1, Imss.isSome_quota? steps.contributions (by decide)⟩
  have hboth := (evaluateConcepts_perm steps.perceptions).append
    (evaluateConcepts_perm steps.deductions)
  rw [← List.map_append] at hboth
  refine List.Perm.trans ?_ (hboth.trans ((ofKind_perm versions).map _))
  simp only [concepts, steps.skipped, List.map_append, List.append_assoc]
  -- what was skipped of the perceptions stands behind the deductions
  apply List.Perm.append_left
  rw [← List.append_assoc, ← List.append_assoc]
  exact List.perm_append_comm.append_right _

end Payroll
