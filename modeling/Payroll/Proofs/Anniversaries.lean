import Mathlib
import Payroll.Proofs.CalendarOrder

/-!
Anniversaries of a date. The completed years are those whose anniversaries have been reached, but for
the days to which anniversaries of a 29 February are moved.
-/

namespace Payroll.Date

variable {a b : Date} {n : Nat}

theorem ordinal_le_of_rank (h : a.rank ≤ b.rank) : a.ordinal ≤ b.ordinal := by
  rcases h.eq_or_lt with he | hlt
  · rw [rank_injective he]
  · exact (ordinal_lt_of_rank hlt).le

theorem daysUntil_nonneg (h : a.rank ≤ b.rank) : 0 ≤ a.daysUntil b :=
  Int.sub_nonneg.2 (Int.ofNat_le.2 (ordinal_le_of_rank h))

theorem daysInMonth_of_ne {month : Nat} (h : month ≠ 2) (y y' : Nat) :
    daysInMonth y month = daysInMonth y' month := by
  unfold daysInMonth
  split
  · contradiction
  all_goals rfl

/-- By how many days the anniversary of a year is earlier than the day of the start. -/
def advance (d : Date) (n : Nat) : Nat :=
  if d.month = 2 ∧ d.day = 29 ∧ isLeap (d.year + n) = false then 1 else 0

theorem advance_le (d : Date) (n : Nat) : d.advance n ≤ 1 := by
  unfold advance
  split <;> omega

theorem fits_iff (d : Date) (n : Nat) :
    d.day ≤ daysInMonth (d.year + n) d.month ↔ d.advance n = 0 := by
  obtain ⟨-, -, -, -, hday⟩ := d.valid
  have hfebruary (y : Nat) : daysInMonth y 2 = if isLeap y then 29 else 28 := rfl
  unfold advance
  by_cases hmonth : d.month = 2
  · rw [hmonth, hfebruary] at hday
    rw [hmonth, hfebruary]
    cases isLeap (d.year + n) <;> split at hday <;> simp <;> omega
  · rw [daysInMonth_of_ne hmonth _ d.year]
    simp [hmonth, hday]

/-- An anniversary is a whole number of years away, less the day by which it is moved. -/
theorem rank_addYears (d : Date) (n : Nat) :
    (d.addYears n).rank + d.advance n = d.rank + 10000 * n := by
  have hfits := d.fits_iff n
  unfold addYears
  split
  · next h =>
    rw [hfits.1 h]
    simp only [rank, seasonal]
    omega
  · next h =>
    have hday : d.day = 29 ∧ d.advance n = 1 := by
      have hne := mt hfits.2 h
      unfold advance at hne ⊢
      split at hne
      · next hmoved => exact ⟨hmoved.2.1, if_pos hmoved⟩
      · exact absurd rfl hne
    simp only [rank, seasonal]
    omega

theorem addYears_rank_le (h : a.rank ≤ b.rank) (n : Nat) :
    (a.addYears n).rank ≤ (b.addYears n).rank := by
  have ha := a.rank_addYears n
  have hb := b.rank_addYears n
  have hle := b.advance_le n
  rcases h.eq_or_lt with he | hlt
  · rw [rank_injective he]
  · omega

theorem yearsUntil_eq (a b : Date) : a.yearsUntil b = (b.rank - a.rank) / 10000 := by
  have ha := a.seasonal_lt
  have hb := b.seasonal_lt
  unfold yearsUntil rank
  split <;> omega

theorem yearsUntil_le_yearsUntil {a' b' : Date} (ha : a'.rank ≤ a.rank) (hb : b.rank ≤ b'.rank) :
    a.yearsUntil b ≤ a'.yearsUntil b' := by
  rw [yearsUntil_eq, yearsUntil_eq]
  exact Nat.div_le_div_right (by omega)

theorem le_yearsUntil_iff (h : a.rank ≤ b.rank) :
    n ≤ a.yearsUntil b ↔ a.rank + 10000 * n ≤ b.rank := by
  rw [yearsUntil_eq]
  omega

theorem addYears_yearsUntil_le (h : a.rank ≤ b.rank) :
    (a.addYears (a.yearsUntil b)).rank ≤ b.rank := by
  have hrank := a.rank_addYears (a.yearsUntil b)
  have hle := (le_yearsUntil_iff h).1 le_rfl
  omega

/-- `d` is the 28 February to which an anniversary of the 29 February `start` is moved. -/
def MovedTo (start d : Date) : Prop :=
  (start.month = 2 ∧ start.day = 29) ∧ d.month = 2 ∧ d.day = 28 ∧ isLeap d.year = false

instance (start d : Date) : Decidable (start.MovedTo d) := inferInstanceAs (Decidable (_ ∧ _))

/-- Only on such a day an anniversary is reached before its year is complete. -/
theorem movedTo_of_reached (hreached : (a.addYears n).rank ≤ b.rank) (hn : a.yearsUntil b < n)
    (h : a.rank ≤ b.rank) : a.MovedTo b := by
  have hearly : ¬ a.rank + 10000 * n ≤ b.rank := fun hle => hn.not_ge ((le_yearsUntil_iff h).2 hle)
  have hrank := a.rank_addYears n
  have hadvance : a.advance n ≠ 0 := by omega
  obtain ⟨hmonth, hday, hyear⟩ : a.month = 2 ∧ a.day = 29 ∧ isLeap (a.year + n) = false := by
    by_contra hne
    exact hadvance (if_neg hne)
  have hle := a.advance_le n
  have hb := b.day_le
  have hvalid := b.valid
  obtain ⟨hy, hm, hd⟩ : b.year = a.year + n ∧ b.month = 2 ∧ b.day = 28 := by
    simp only [rank, seasonal] at *
    omega
  exact ⟨⟨hmonth, hday⟩, hm, hd, hy ▸ hyear⟩

theorem addYears_of_movedTo (h : a.rank ≤ b.rank) (hmoved : a.MovedTo b) :
    a.addYears (a.yearsUntil b + 1) = b := by
  obtain ⟨⟨hmonth, hday⟩, hm, hd, hleap⟩ := hmoved
  have ha : a.rank = a.year * 10000 + 229 := by rw [rank, seasonal, hmonth, hday]
  have hb : b.rank = b.year * 10000 + 228 := by rw [rank, seasonal, hm, hd]
  have hyear : a.year + (a.yearsUntil b + 1) = b.year := by
    rw [yearsUntil_eq]
    omega
  have hadvance : a.advance (a.yearsUntil b + 1) = 1 := if_pos ⟨hmonth, hday, hyear ▸ hleap⟩
  have hrank := a.rank_addYears (a.yearsUntil b + 1)
  apply rank_injective
  omega

theorem reached_iff (h : a.rank ≤ b.rank) (hmoved : ¬ a.MovedTo b) (n : Nat) :
    (a.addYears n).rank ≤ b.rank ↔ n ≤ a.yearsUntil b := by
  refine ⟨fun hreached => ?_, fun hn => ?_⟩
  · by_contra hlater
    exact hmoved (movedTo_of_reached hreached (not_le.1 hlater) h)
  · have hrank := a.rank_addYears n
    have hle := (le_yearsUntil_iff h).1 hn
    omega

/-- The anniversary of the completed years has been reached. The next one has not, and the completed
years are the number of anniversaries reached, except on a day to which the anniversary of a 29 February
is moved: that day is itself the next anniversary. -/
theorem anniversaries_reached (h : a.orEqual b) :
    (a.addYears (a.yearsUntil b)).orEqual b ∧
    (b.before (a.addYears (a.yearsUntil b + 1)) ↔ ¬ a.MovedTo b) ∧
    (¬ a.MovedTo b → ∀ n, (a.addYears n).orEqual b ↔ n ≤ a.yearsUntil b) ∧
    (a.MovedTo b → a.addYears (a.yearsUntil b + 1) = b) := by
  have hrank := orEqual_iff.1 h
  simp only [orEqual_iff, before_iff]
  refine ⟨addYears_yearsUntil_le hrank, ⟨fun hbefore hmoved => ?_, fun hmoved => ?_⟩,
    reached_iff hrank, addYears_of_movedTo hrank⟩
  · rw [addYears_of_movedTo hrank hmoved] at hbefore
    exact lt_irrefl _ hbefore
  · rw [← not_le, reached_iff hrank hmoved]
    omega

/-- Who began on a 29 February has an anniversary on 28 February two years later, when one year is
complete. -/
theorem leapDay_anniversary :
    let start : Date := { year := 2020, month := 2, day := 29 }
    let d : Date := { year := 2022, month := 2, day := 28 }
    start.orEqual d ∧ start.MovedTo d ∧ start.yearsUntil d = 1 ∧ start.addYears 2 = d ∧
      ¬ d.before (start.addYears 2) := by
  intro start d
  have h : start.orEqual d := by decide
  have hmoved : start.MovedTo d := by decide
  have hyears : start.yearsUntil d = 1 := by decide
  obtain ⟨-, hnext, -, hday⟩ := anniversaries_reached h
  rw [hyears] at hnext hday
  exact ⟨h, hmoved, hyears, hday hmoved, fun hbefore => hnext.1 hbefore hmoved⟩

end Payroll.Date
