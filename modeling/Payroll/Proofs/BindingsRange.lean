import Mathlib
import Payroll.Calculation
import Payroll.Proofs.DecimalRange
import Payroll.Proofs.LengthOfService
import Payroll.Proofs.TableRecords

/-!
The range of what formulas are given: every value of a variable can be written and read again, as
are the contribution base and the totals that deductions start from.
-/

namespace Payroll

open Decimal (Context ordinary)
open Record Result

theorem readable_of_toDecimal {j : Json} {d : Decimal} (h : j.toDecimal = .ok d) : d.readable := by
  have htext {i : Json} {s : String} (ht : Amount.ofText i s = .ok d) : d.readable := by
    unfold Amount.ofText at ht
    split at ht
    · next hread =>
      cases ht
      exact Decimal.readable_of_read hread
    · cases ht
    · cases ht
  unfold Json.toDecimal Amount.toDecimal at h
  split at h
  · next he => cases he
  · next he => cases he
  · split at h
    · next hd =>
      cases h
      exact Decimal.readable_of_ofInteger? hd
    · cases h
  · exact htext h
  · exact htext h
  · cases h

namespace Date

theorem daysBeforeMonth_le (year month : Nat) : daysBeforeMonth year month ≤ 31 * month := by
  have hdays (m : Nat) : daysInMonth year m ≤ 31 := by
    simp only [daysInMonth]
    split
    · split <;> decide
    all_goals decide
  induction month with
  | zero => exact Nat.le_refl 0
  | succ m ih =>
      cases m with
      | zero => exact Nat.zero_le _
      | succ m =>
          have := hdays (m + 1)
          simp only [daysBeforeMonth]
          omega

theorem ordinal_lt {d : Date} (h : d.year ≤ 9999) : d.ordinal < 10000000 := by
  have hm := daysBeforeMonth_le d.year d.month
  have hs := d.seasonal_lt
  have hv := d.valid
  simp only [ordinal, daysBeforeYear, seasonal] at *
  omega

end Date

namespace Employee

variable {e : Employee}

/-- Whatever the reader of salaries makes sure of holds of those of an employee. -/
theorem Loaded.forall_salary {P : Decimal → Prop} (h : e.Loaded)
    (hP : ∀ i d, atLeast 0 decimal i = .ok d → P d) :
    P e.baseSalary ∧ (∀ d ∈ e.dailySalary, P d) ∧ ∀ d ∈ e.sbc, P d := by
  obtain ⟨j, hj⟩ := h
  obtain ⟨fs, -, -, hrun, -⟩ := record_eq_ok.1 (Record.load_eq_ok.1 hj)
  rw [FieldReader.run_eq_ok] at hrun
  unfold fieldReader at hrun
  iterate 7 rw [FieldReader.exists_run_seq] at hrun
  rw [FieldReader.exists_run_map] at hrun
  obtain ⟨_, -, _, -, _, -, _, hbase, _, hdaily, _, hsbc, _, -, _, -, rfl⟩ := hrun
  have hoptional {name : String} {o : Option Decimal}
      (ho : (optional name (atLeast 0 decimal)).run fs = .ok o) : ∀ d ∈ o, P d := by
    intro d hd
    cases hd
    obtain ⟨i, hi⟩ := exists_read_of_optional ho
    exact hP i d hi
  obtain ⟨i, -, hi⟩ := required_eq_ok.1 hbase
  exact ⟨hP i _ hi, hoptional hdaily, hoptional hsbc⟩

theorem Loaded.readable (h : e.Loaded) : e.baseSalary.readable ∧
    (∀ d ∈ e.dailySalary, d.readable) ∧ ∀ d ∈ e.sbc, d.readable :=
  h.forall_salary fun _ _ hd => readable_of_decimal (bounded_eq_ok.1 hd).1

end Employee

theorem Period.Loaded.year_le {p : Period} (h : p.Loaded) : p.stop.year ≤ 9999 := by
  obtain ⟨j, hj⟩ := h
  obtain ⟨fs, -, -, hrun, -⟩ := record_eq_ok.1 (Record.load_eq_ok.1 hj)
  rw [FieldReader.run_eq_ok] at hrun
  iterate 5 rw [FieldReader.exists_run_seq] at hrun
  rw [FieldReader.exists_run_map] at hrun
  obtain ⟨_, -, _, -, _, -, _, -, _, hstop, _, -, rfl⟩ := hrun
  obtain ⟨i, -, hi⟩ := required_eq_ok.1 hstop
  exact year_le_of_date hi

namespace Formula

variable {e : Employee} {p : Period} {tables : FiscalValues} {values values' : Bindings}
  {overrides : Fields}

/-- Every value can be written and read again. -/
def Readable (values : Bindings) : Prop := ∀ v, ∀ d ∈ values v, d.readable

theorem readable_dailyPay (he : e.Loaded) {daily : Decimal} (h : e.dailyPay = .ok daily) :
    daily.readable := by
  unfold Employee.dailyPay at h
  split at h
  · next hd =>
    cases h
    exact he.readable.2.1 _ hd
  · obtain ⟨_, -, h⟩ := bind_eq_ok.1 h
    exact readable_of_roundHalfAway h

theorem readable_integratedPay (he : e.Loaded) {daily d : Decimal} {days : Nat}
    (h : e.integratedPay daily tables days = .ok d) : d.readable := by
  unfold Employee.integratedPay at h
  split at h
  · next hd =>
    cases h
    exact he.readable.2.2 _ hd
  · obtain ⟨_, -, h⟩ := bind_eq_ok.1 h
    obtain ⟨_, -, h⟩ := bind_eq_ok.1 h
    exact readable_of_roundHalfAway h

theorem readable_derived (he : e.Loaded) (hp : p.Loaded)
    (htables : FiscalValues.load tables.toJson = .ok tables)
    (h : derived e p tables = .ok values) : Readable values := by
  obtain ⟨daily, hdaily, h⟩ := bind_eq_ok.1 h
  obtain ⟨integrated, hintegrated, h⟩ := bind_eq_ok.1 h
  obtain ⟨quotient, -, h⟩ := bind_eq_ok.1 h
  obtain ⟨hourly, hhourly, h⟩ := bind_eq_ok.1 h
  rw [← pure_eq_ok.1 h]
  have hyear := hp.year_le
  have hordinal := Date.ordinal_lt hyear
  have hyears : e.hireDate.yearsUntil p.stop ≤ 9999 := by
    rw [Date.yearsUntil]
    split <;> omega
  have hvacation := Service.vacationDays_le (e.hireDate.yearsUntil p.stop)
  have hlength : p.days ≤ 30 := by
    rw [Period.days]
    cases p.kind <;> decide
  have hcount {n : Int} (hn : n.natAbs < 10000000) : (Decimal.ofInt n).readable :=
    Decimal.readable_ofInt (hn.trans (by decide))
  obtain ⟨huma, hmonth, hsmg⟩ := FiscalValues.readable_of_load htables
  intro v d hd
  cases v with
  | baseSalary =>
      cases hd
      exact he.readable.1
  | dailySalary =>
      cases hd
      exact readable_dailyPay he hdaily
  | hourlyRate =>
      cases hd
      exact readable_of_roundHalfAway hhourly
  | integratedSalary =>
      cases hd
      exact readable_integratedPay he hintegrated
  | workedDays | periodDays =>
      cases hd
      exact hcount (by omega)
  | absenceDays | overtimeHours | doubleOvertimeHours | tripleOvertimeHours =>
      cases hd
      exact Decimal.readable_zero
  | seniority =>
      cases hd
      exact hcount (by omega)
  | seniorityDays =>
      cases hd
      apply hcount
      rw [Date.daysUntil]
      omega
  | vacationDays =>
      cases hd
      exact hcount (by omega)
  | umaDaily =>
      cases hd
      exact huma
  | umaMonthly =>
      cases hd
      exact hmonth
  | smgDaily =>
      cases hd
      exact hsmg
  | totalPerceptions | taxableIncome | totalDeductions => cases hd
  | custom1 | custom2 | custom3 | custom4 | custom5 => cases hd

theorem readable_of_overrideValue {j : Json} {d : Decimal} (h : overrideValue j = .ok (some d)) :
    d.readable := by
  unfold overrideValue at h
  split at h
  · cases h
  · obtain ⟨d', hd', he⟩ := map_eq_ok.1 h
    cases he
    exact readable_of_toDecimal hd'

theorem readable_overlay (hv : Readable values) (h : overlay values overrides = .ok values') :
    Readable values' := by
  induction overrides generalizing values with
  | nil =>
      cases h
      exact hv
  | cons f fs ih =>
      obtain ⟨name, j⟩ := f
      obtain ⟨o, ho, h⟩ := bind_eq_ok.1 h
      refine ih ?_ h
      intro v d hd
      simp only at hd
      split at hd
      · cases hd
        exact readable_of_overrideValue ho
      · exact hv v d hd

theorem readable_workedDays (hv : Readable values) {o : Option Decimal}
    (h : workedDays p overrides values = .ok o) : ∀ d ∈ o, d.readable := by
  unfold workedDays at h
  split at h
  · split at h
    · obtain ⟨d, hd, h⟩ := bind_eq_ok.1 h
      cases h
      intro d' hd'
      cases hd'
      exact Decimal.readable_max2 Decimal.readable_zero
        (Context.readable_of_sub Context.standard_ordinary (signal_eq_ok.1 hd))
    · cases h
  · cases h
    exact hv .workedDays

theorem readable_bindings (he : e.Loaded) (hp : p.Loaded)
    (htables : FiscalValues.load tables.toJson = .ok tables)
    (h : bindings e p tables overrides = .ok values) : Readable values := by
  unfold bindings at h
  split at h
  · cases h
  · obtain ⟨base, hbase, h⟩ := bind_eq_ok.1 h
    simp only at h
    split at h
    · obtain ⟨all, hall, h⟩ := bind_eq_ok.1 h
      obtain ⟨worked, hworked, h⟩ := bind_eq_ok.1 h
      cases h
      have hbase := readable_derived he hp htables hbase
      have hall := readable_overlay hbase hall
      intro v d hd
      simp only at hd
      split at hd
      · exact readable_workedDays hall hworked d hd
      · exact hall v d hd
    · cases h

end Formula

namespace Calculation

open Formula

variable {values values' : Bindings}

theorem readable_totalTaxable {amounts : List ConceptAmount} {d : Decimal}
    (h : totalTaxable amounts = .ok d) : d.readable :=
  Context.readable_of_sum Context.standard_ordinary (signal_eq_ok.1 h)

theorem readable_totalValue {amounts : List ConceptAmount} {d : Decimal}
    (h : totalValue amounts = .ok d) : d.readable :=
  Context.readable_of_sum Context.standard_ordinary (signal_eq_ok.1 h)

theorem readable_provide {overrides : Fields} {v : Variable} {total : Except Fault Decimal}
    (ht : ∀ d, total = .ok d → d.readable) (hv : Readable values)
    (h : provide overrides v total values = .ok values') : Readable values' := by
  unfold provide at h
  split at h
  · cases h
    exact hv
  · obtain ⟨d, hd, h⟩ := bind_eq_ok.1 h
    cases h
    intro w d' hd'
    simp only at hd'
    split at hd'
    · cases hd'
      exact ht d hd
    · exact hv w d' hd'

theorem readable_contributionBase {s : Setting} (hs : s.employee.Loaded) (hv : Readable values)
    {d : Decimal} (h : (contributionBase s values).toDecimal = .ok d) : d.readable := by
  unfold contributionBase at h
  split at h
  · next hd =>
    cases h
    exact hs.readable.2.2 _ hd
  · next hd =>
    cases h
    exact hv .integratedSalary _ hd
  · cases h

end Calculation

end Payroll
