import Mathlib
import Payroll.Proofs.Anniversaries
import Payroll.Service

/-!
Longer service never gives less: neither completed years nor vacation days nor the years that count for
the exemption.
-/

namespace Payroll.Service

variable {hire leave hire' leave' : Date}

/-- What the first row gives whose years are complete, and a least number of days without one. -/
def daysFrom (least : Nat) (rows : List (Int × Nat)) (years : Int) : Nat :=
  ((rows.find? fun row => decide (row.1 ≤ years)).map (·.2)).getD least

theorem vacationDays_eq (years : Int) : vacationDays years = daysFrom 12 vacationTable years := by
  unfold vacationDays daysFrom
  split
  · next h => rw [h]; rfl
  · next h => rw [h]; rfl

theorem daysFrom_cons (least : Nat) (row : Int × Nat) (rows : List (Int × Nat)) (years : Int) :
    daysFrom least (row :: rows) years =
      if row.1 ≤ years then row.2 else daysFrom least rows years := by
  unfold daysFrom
  by_cases h : row.1 ≤ years <;> simp [h]

theorem daysFrom_le {least bound : Nat} {rows : List (Int × Nat)} (hleast : least ≤ bound)
    (hrows : ∀ row ∈ rows, row.2 ≤ bound) (years : Int) : daysFrom least rows years ≤ bound := by
  induction rows with
  | nil => exact hleast
  | cons row rows ih =>
      obtain ⟨hrow, hrest⟩ := List.forall_mem_cons.1 hrows
      rw [daysFrom_cons]
      split
      · exact hrow
      · exact ih hrest

/-- In a table that gives less from row to row, more years find an earlier row. -/
theorem daysFrom_mono {least : Nat} {rows : List (Int × Nat)} {years years' : Int}
    (hsorted : rows.Pairwise fun row next => next.2 ≤ row.2)
    (hleast : ∀ row ∈ rows, least ≤ row.2) (h : years ≤ years') :
    daysFrom least rows years ≤ daysFrom least rows years' := by
  induction rows with
  | nil => exact le_rfl
  | cons row rows ih =>
      obtain ⟨hrow, hrest⟩ := List.pairwise_cons.1 hsorted
      obtain ⟨hfirst, hothers⟩ := List.forall_mem_cons.1 hleast
      rw [daysFrom_cons, daysFrom_cons]
      by_cases hyears' : row.1 ≤ years'
      · rw [if_pos hyears']
        split
        · exact le_rfl
        · exact daysFrom_le hfirst hrow years
      · rw [if_neg hyears', if_neg fun hyears => hyears' (hyears.trans h)]
        exact ih hrest hothers

theorem vacationDays_mono {years years' : Int} (h : years ≤ years') :
    vacationDays years ≤ vacationDays years' := by
  rw [vacationDays_eq, vacationDays_eq]
  exact daysFrom_mono (by decide) (by decide) h

theorem vacationDays_le (years : Int) : vacationDays years ≤ 32 := by
  rw [vacationDays_eq]
  exact daysFrom_le (by decide) (by decide) years

/-- The days of service since the last anniversary. -/
def remainder (hire leave : Date) : Int := (hire.addYears (hire.yearsUntil leave)).daysUntil leave

theorem exemptYears_eq (hire leave : Date) : exemptYears hire leave =
    if (halfYear : Int) < remainder hire leave then hire.yearsUntil leave + 1
    else hire.yearsUntil leave := rfl

theorem remainder_nonneg (h : hire.rank ≤ leave.rank) : 0 ≤ remainder hire leave :=
  Date.daysUntil_nonneg (Date.addYears_yearsUntil_le h)

/-- With as many completed years, who began earlier or stayed longer has served more days since. -/
theorem remainder_le (hhire : hire'.rank ≤ hire.rank) (hleave : leave.rank ≤ leave'.rank)
    (hyears : hire'.yearsUntil leave' = hire.yearsUntil leave) :
    remainder hire leave ≤ remainder hire' leave' := by
  have hstart := Date.ordinal_le_of_rank (Date.addYears_rank_le hhire (hire.yearsUntil leave))
  have hend := Date.ordinal_le_of_rank hleave
  unfold remainder Date.daysUntil
  rw [hyears]
  omega

theorem exemptYears_mono (hhire : hire'.rank ≤ hire.rank) (hleave : leave.rank ≤ leave'.rank) :
    exemptYears hire leave ≤ exemptYears hire' leave' := by
  have hyears := Date.yearsUntil_le_yearsUntil hhire hleave
  rw [exemptYears_eq, exemptYears_eq]
  rcases hyears.eq_or_lt with heq | hlt
  · have hdays := remainder_le hhire hleave heq.symm
    rw [heq]
    split
    · next hlong => rw [if_pos (hlong.trans_le hdays)]
    · split <;> omega
  · -- a year more outweighs what the remainders add
    split <;> split <;> omega

/-- Who began no later and left no earlier has no fewer completed years, vacation days and years that
count for the exemption. These are the completed years, or one more where over half a year of days,
which are never negative, has passed since the last anniversary. -/
theorem service_grows (hhire : hire'.orEqual hire) (hserved : hire.before leave)
    (hleave : leave.orEqual leave') :
    hire.yearsUntil leave ≤ hire'.yearsUntil leave' ∧
    vacationDays (hire.yearsUntil leave) ≤ vacationDays (hire'.yearsUntil leave') ∧
    exemptYears hire leave ≤ exemptYears hire' leave' ∧
    0 ≤ remainder hire leave ∧
    (exemptYears hire leave = hire.yearsUntil leave ∧ remainder hire leave ≤ halfYear ∨
      exemptYears hire leave = hire.yearsUntil leave + 1 ∧ halfYear < remainder hire leave) := by
  have hhire := Date.orEqual_iff.1 hhire
  have hserved := Date.before_iff.1 hserved
  have hleave := Date.orEqual_iff.1 hleave
  have hyears := Date.yearsUntil_le_yearsUntil hhire hleave
  refine ⟨hyears, vacationDays_mono (Int.ofNat_le.2 hyears), exemptYears_mono hhire hleave,
    remainder_nonneg hserved.le, ?_⟩
  rw [exemptYears_eq]
  split
  · next hlong => exact .inr ⟨rfl, hlong⟩
  · next hshort => exact .inl ⟨rfl, not_lt.1 hshort⟩

/-- From a 29 February to the next 28 February no year is complete, and 365 days count as one. A day
more on either side completes the year. -/
theorem leapDay_grows :
    let hire : Date := { year := 2020, month := 2, day := 29 }
    let leave : Date := { year := 2021, month := 2, day := 28 }
    let hire' : Date := { year := 2020, month := 2, day := 28 }
    let leave' : Date := { year := 2021, month := 3, day := 1 }
    (hire'.orEqual hire ∧ hire.before leave ∧ leave.orEqual leave') ∧
      hire.yearsUntil leave = 0 ∧ remainder hire leave = 365 ∧ exemptYears hire leave = 1 ∧
      hire'.yearsUntil leave' = 1 ∧ exemptYears hire leave ≤ exemptYears hire' leave' := by
  intro hire leave hire' leave'
  have h : hire'.orEqual hire ∧ hire.before leave ∧ leave.orEqual leave' := by decide
  exact ⟨h, by decide, by decide, by decide, by decide, (service_grows h.1 h.2.1 h.2.2).2.2.1⟩

end Payroll.Service
