import Mathlib
import Payroll.Calendar.Date

/-!
The order of dates: no two dates have one rank, and earlier dates have smaller ordinals.
-/

namespace Payroll.Date

variable {a b d : Date}

theorem before_iff : a.before b = true ↔ a.rank < b.rank := decide_eq_true_iff

theorem orEqual_iff : a.orEqual b = true ↔ a.rank ≤ b.rank := decide_eq_true_iff

theorem day_le (d : Date) : d.day ≤ 31 := by
  obtain ⟨-, -, -, -, hday⟩ := d.valid
  refine hday.trans ?_
  unfold daysInMonth
  split <;> try split
  all_goals omega

theorem rank_injective (h : a.rank = b.rank) : a = b := by
  have ha := a.day_le
  have hb := b.day_le
  have hva := a.valid
  have hvb := b.valid
  obtain ⟨y, m, k, _⟩ := a
  obtain ⟨y', m', k', _⟩ := b
  simp only [rank, seasonal] at *
  obtain ⟨rfl, rfl, rfl⟩ : y = y' ∧ m = m' ∧ k = k' := by omega
  rfl

theorem rank_le_latest (h : d.year ≤ 9999) : d.rank ≤ latest.rank := by
  have hday := d.day_le
  have hvalid := d.valid
  simp only [rank, seasonal, latest]
  omega

theorem year_le_of_before (h : d.before latest = true) : d.year ≤ 9999 := by
  have hrank := before_iff.1 h
  simp only [rank, seasonal, latest] at hrank
  omega

theorem daysBeforeMonth_succ (year : Nat) {month : Nat} (h : 1 ≤ month) :
    daysBeforeMonth year (month + 1) = daysBeforeMonth year month + daysInMonth year month := by
  cases month with
  | zero => omega
  | succ m => rfl

/-- The days before a month are over when a later month begins. -/
theorem daysBeforeMonth_of_lt (year : Nat) {m n : Nat} (hm : 1 ≤ m) (h : m < n) :
    daysBeforeMonth year m + daysInMonth year m ≤ daysBeforeMonth year n := by
  induction n, h using Nat.le_induction with
  | base => exact (daysBeforeMonth_succ year hm).ge
  | succ n hn ih =>
      rw [daysBeforeMonth_succ year (hm.trans (Nat.le_of_succ_le hn))]
      omega

theorem daysBeforeMonth_year (year : Nat) :
    daysBeforeMonth year 13 = if isLeap year then 366 else 365 := by
  have hstep (m : Nat) : daysBeforeMonth year (m + 2) =
      daysBeforeMonth year (m + 1) + daysInMonth year (m + 1) := rfl
  iterate 12 rw [hstep]
  simp only [daysInMonth, daysBeforeMonth]
  split <;> rfl

theorem daysBeforeYear_succ {year : Nat} (h : 1 ≤ year) :
    daysBeforeYear (year + 1) = daysBeforeYear year + if isLeap year then 366 else 365 := by
  obtain ⟨n, rfl⟩ := Nat.exists_eq_add_one.2 h
  have hle : n / 100 ≤ n / 4 := Nat.div_le_div_left (by decide) (by decide)
  have hcentury : 100 ∣ n + 1 → 4 ∣ n + 1 := (show 4 ∣ 100 by decide).trans
  have hcycle : 400 ∣ n + 1 → 100 ∣ n + 1 := (show 100 ∣ 400 by decide).trans
  simp only [daysBeforeYear, Nat.add_sub_cancel, Nat.succ_div, isLeap, Bool.and_eq_true,
    Bool.or_eq_true, beq_iff_eq, bne_iff_ne, ne_eq, ← Nat.dvd_iff_mod_eq_zero]
  by_cases h4 : 4 ∣ n + 1
  · by_cases h100 : 100 ∣ n + 1
    · by_cases h400 : 400 ∣ n + 1
      · simp only [h4, h100, h400, if_true, not_true, or_true, and_self]
        omega
      · simp only [h4, h100, h400, if_true, if_false, not_true, or_self, and_false]
        omega
    · simp only [h4, h100, mt hcycle h100, if_true, if_false, not_false_iff, true_or, and_self]
      omega
  · simp only [h4, mt hcentury h4, mt (hcentury ∘ hcycle) h4, if_false, false_and]
    omega

theorem daysBeforeYear_mono {y y' : Nat} (hy : 1 ≤ y) (h : y ≤ y') :
    daysBeforeYear y ≤ daysBeforeYear y' := by
  induction y', h using Nat.le_induction with
  | base => exact le_rfl
  | succ n hn ih =>
      rw [daysBeforeYear_succ (hy.trans hn)]
      exact ih.trans (Nat.le_add_right _ _)

theorem ordinal_pos (d : Date) : 0 < d.ordinal :=
  Nat.add_pos_right _ d.valid.2.2.2.1

theorem ordinal_le_of_year (d : Date) : d.ordinal ≤ daysBeforeYear (d.year + 1) := by
  obtain ⟨hy, hm, hlast, -, hday⟩ := d.valid
  have hmonth := daysBeforeMonth_of_lt d.year hm (show d.month < 13 by omega)
  rw [daysBeforeYear_succ hy, ← daysBeforeMonth_year, ordinal]
  omega

theorem ordinal_lt_of_rank (h : a.rank < b.rank) : a.ordinal < b.ordinal := by
  obtain ⟨hy, hm, -, hpos, hday⟩ := a.valid
  obtain ⟨-, hm', -, hpos', -⟩ := b.valid
  have hs := b.seasonal_lt
  have hk := a.day_le
  have hk' := b.day_le
  simp only [rank, seasonal] at h hs
  rcases lt_trichotomy a.year b.year with hlt | heq | hgt
  · have hyear := daysBeforeYear_mono (Nat.le_add_left 1 _) hlt
    have hend := a.ordinal_le_of_year
    simp only [ordinal] at *
    omega
  · simp only [ordinal, heq]
    rcases lt_trichotomy a.month b.month with hlt | he | hgt
    · have hmonth := daysBeforeMonth_of_lt b.year hm hlt
      rw [heq] at hday
      omega
    · rw [he]
      omega
    · omega
  · omega

theorem ordinal_injective (h : a.ordinal = b.ordinal) : a = b := by
  apply rank_injective
  rcases lt_trichotomy a.rank b.rank with hlt | he | hgt
  · exact absurd (ordinal_lt_of_rank hlt) h.not_lt
  · exact he
  · exact absurd (ordinal_lt_of_rank hgt) h.not_gt

end Payroll.Date
