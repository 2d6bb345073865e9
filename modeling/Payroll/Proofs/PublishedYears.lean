import Mathlib
import Payroll.Proofs.AmountBounds
import Payroll.Proofs.SubsidyCredit
import Payroll.Proofs.TableRecords

/-!
What a year has without table files: published tables, in which no kind of period is missing and no amount
is large, or none at all.
-/

namespace Payroll

open Result

/-- The power of ten that bounds the amounts of published tables. -/
def Published.size : Nat := 6

/-- Every kind of period has a tariff, and no amount is large. -/
@[mk_iff]
structure FiscalTables.Complete (t : FiscalTables) : Prop where
  tariff : ∀ kind ∈ PeriodKind.all, ∃ table ∈ (t.isrTable kind.name).toOption,
    ∀ row ∈ table.rows, row.terms.fixedFee.value ≤ 10 ^ Published.size
  subsidy : ∀ kind ∈ PeriodKind.all, ∀ table ∈ t.subsidyTable kind.name,
    ∀ row ∈ table.rows, row.terms.amount.value ≤ 10 ^ Published.size ∧
      row.terms.amount.adjusted ≤ Decimal.ordinary.maxExponent
  values : t.values.umaDaily.value ≤ 10 ^ Published.size ∧
    t.values.smgDaily.value ≤ 10 ^ Published.size ∧
    (t.values.aguinaldoDays : ℚ) ≤ 10 ^ Published.size ∧
    (t.values.sbcCap : ℚ) ≤ 10 ^ Published.size
  rates : ∀ r ∈ t.published.imss, (0 ≤ r.employer.value ∧ r.employer.value ≤ 1) ∧
    0 ≤ r.employee.value ∧ r.employee.value ≤ 1
  riskRates : ∀ r ∈ t.published.riskRates, 0 ≤ r.2.value ∧ r.2.value ≤ 1
  branches : t.published.imss.length ≤ 100

instance : DecidablePred FiscalTables.Complete := fun t =>
  decidable_of_iff _ (FiscalTables.complete_iff t).symm

-- The published tables are constants.
theorem Published.complete_of_mem :
    ∀ s ∈ all, ∃ t ∈ (FiscalTables.ofSet s.2).toOption, t.Complete := by
  decide +kernel

namespace FiscalTables.Complete

variable {t : FiscalTables}

theorem exists_tariff (h : t.Complete) (kind : PeriodKind) : ∃ table, t.isrTable kind.name = .ok table ∧
    ∀ row ∈ table.rows, row.terms.fixedFee.value ≤ 10 ^ Published.size := by
  obtain ⟨table, htable, hfees⟩ := h.tariff kind kind.mem_all
  exact ⟨table, ok_of_toOption htable, hfees⟩

theorem amount_fitted (h : t.Complete) (hback : t.ReadsBack) (kind : PeriodKind)
    {table : BracketTable SubsidyTerms} (htable : t.subsidyTable kind.name = some table) :
    ∀ row ∈ table.rows, row.terms.amount.FittedUpto Published.size := fun row hrow =>
  have hamount := h.subsidy kind kind.mem_all table htable row hrow
  ⟨⟨Isr.amount_nonneg_of_load (hback.of_subsidyTable htable row hrow), hamount.1⟩, hamount.2⟩

end FiscalTables.Complete

/-- Without table files every year has complete tables, or none. -/
theorem Configuration.loadTables_settles {c : Configuration} (h : c.tableFiles = []) {year : Int}
    (hyear : digitCount year.natAbs ≤ Record.maxIntegerText) :
    (∃ t, c.loadTables year = .ok t ∧ t.Complete ∧ t.ReadsBack) ∨
      ∃ file, c.loadTables year = .error (.noTables year file) := by
  have hsettles : (∃ s ∈ Published.all, c.tableFiles.load c.tablesDirectory year = .ok s.2) ∨
      ∃ file, c.tableFiles.load c.tablesDirectory year = .error (.noTables year file) := by
    have hyears : TableFiles.years [] =
        .ok (TableFiles.descending (Published.all.map (·.1))) := rfl
    rw [h, TableFiles.load, hyears]
    simp only [bind, Except.bind, if_neg (not_lt.2 hyear)]
    split
    · next tables hfound =>
      obtain ⟨y, -, hy⟩ := List.exists_of_findSome?_eq_some hfound
      obtain ⟨s, hs, he⟩ := Option.map_eq_some_iff.1 hy
      exact .inl ⟨s, List.mem_of_find?_eq_some hs, he.symm⟩
    · exact .inr ⟨_, rfl⟩
  obtain ⟨s, hs, hload⟩ | ⟨file, hload⟩ := hsettles
  · obtain ⟨t, ht, hcomplete⟩ := Published.complete_of_mem s hs
    have hset := bind_eq_ok.2 ⟨s.2, hload, ok_of_toOption ht⟩
    exact .inl ⟨t, hset, hcomplete, readsBack_of_loadTables hset⟩
  · exact .inr ⟨file, by rw [loadTables, hload]; rfl⟩

end Payroll
