import Mathlib
import Payroll.Calendar.Instant
import Payroll.Proofs.ContextRounding
import Payroll.Proofs.ShortestReals

/-!
Timestamps and the instants they stand for. They keep the order of instants, and tell them apart for
centuries on both sides of 1970: as long as 33 binary digits are enough for the seconds.
-/

namespace Payroll

open Decimal

namespace Real64

variable {num num' den : Nat} {e e' : Int} {x x' : ℚ}

theorem Scale.le (h : Scale e x) (h' : Scale e' x') (hx : x ≤ x') : e ≤ e' := by
  rcases h.low with rfl | hlow
  · exact h'.least
  · have := (zpow_lt_zpow_iff_right₀ (by norm_num)).1 ((hlow.trans hx).trans_lt h'.high)
    omega

theorem unitsOf_zero (den : Nat) : unitsOf 0 den = 0 := by
  have hround (d : Nat) : roundDiv 0 d = 0 := by simp [roundDiv]
  simp [unitsOf, hround]

theorem exists_unitsOf (hnum : 0 < num) (hden : 0 < den) : ∃ e, Scale e ((num : ℚ) / den) ∧
    (unitsOf num den : ℚ) =
      Rounding.nearest .halfEven ((num : ℚ) / den / 2 ^ e) * 2 ^ (e + 1074) := by
  have hscale := scale_binaryExponent hnum hden
  refine ⟨_, hscale, ?_⟩
  have hleast := hscale.least
  have hpos : 0 < den <<< (binaryExponent num den).toNat := by
    rw [Nat.shiftLeft_eq]
    positivity
  have hpower : (2 : ℚ) ^ (binaryExponent num den + 1074) =
      2 ^ (binaryExponent num den + 1074).toNat := by
    rw [← zpow_natCast, Int.toNat_of_nonneg (by omega)]
  have hround := roundDiv_eq (num <<< (-binaryExponent num den).toNat) hpos
  rw [shift_div] at hround
  rw [unitsOf, cast_shiftLeft, ← hround, hpower, Int.cast_natCast]

/-- Of two numbers on one scale the rounding keeps the order, and numbers of different scales are on
different sides of a power of two. -/
theorem unitsOf_mono (hden : 0 < den) (h : num ≤ num') : unitsOf num den ≤ unitsOf num' den := by
  rcases Nat.eq_zero_or_pos num with rfl | hnum
  · rw [unitsOf_zero]
    exact Nat.zero_le _
  · obtain ⟨e, hscale, hunits⟩ := exists_unitsOf hnum hden
    obtain ⟨e', hscale', hunits'⟩ := exists_unitsOf (hnum.trans_le h) hden
    have hx : (num : ℚ) / den ≤ num' / den :=
      div_le_div_of_nonneg_right (Nat.cast_le.2 h) (Nat.cast_nonneg den)
    rw [← Nat.cast_le (α := ℚ), hunits, hunits']
    rcases (hscale.le hscale' hx).lt_or_eq with hlt | rfl
    · have hhigh : (num : ℚ) / den / 2 ^ e ≤ ((2 ^ 53 : ℤ) : ℚ) := by
        rw [div_le_iff₀ (two_zpow_pos e)]
        refine hscale.high.le.trans_eq ?_
        rw [add_comm, zpow_add₀ two_ne_zero]
        norm_num
      have hlow : ((2 ^ 52 : ℤ) : ℚ) ≤ (num' : ℚ) / den / 2 ^ e' := by
        rw [le_div_iff₀ (two_zpow_pos e')]
        have hlow := hscale'.low.resolve_left (by have := hscale.least; omega)
        refine le_trans (le_of_eq ?_) hlow
        rw [add_comm e', zpow_add₀ two_ne_zero]
        norm_num
      calc (Rounding.nearest .halfEven ((num : ℚ) / den / 2 ^ e) : ℚ) * 2 ^ (e + 1074)
          ≤ ((2 ^ 53 : ℤ) : ℚ) * 2 ^ (e + 1074) := mul_le_mul_of_nonneg_right
            (Int.cast_le.2 (Rounding.nearest_le hhigh)) (two_zpow_pos _).le
        _ = ((2 ^ 52 : ℤ) : ℚ) * 2 ^ (e + 1 + 1074) := by
            rw [add_right_comm, zpow_add_one₀ two_ne_zero]
            push_cast
            ring
        _ ≤ ((2 ^ 52 : ℤ) : ℚ) * 2 ^ (e' + 1074) := mul_le_mul_of_nonneg_left
            (zpow_le_zpow_right₀ one_le_two (by omega)) (by positivity)
        _ ≤ (Rounding.nearest .halfEven ((num' : ℚ) / den / 2 ^ e') : ℚ) * 2 ^ (e' + 1074) :=
            mul_le_mul_of_nonneg_right (Int.cast_le.2 (Rounding.le_nearest hlow))
              (two_zpow_pos _).le
    · exact mul_le_mul_of_nonneg_right (Int.cast_le.2 (Rounding.nearest_mono _
        (div_le_div_of_nonneg_right hx (two_zpow_pos e).le))) (two_zpow_pos _).le

/-- Up to a power of two the numbers are off by half a unit in the last of their 53 binary digits. -/
theorem abs_unitsOf_sub_le {k : Int} (hk : -1021 ≤ k) (hden : 0 < den) (h : (num : ℚ) / den < 2 ^ k) :
    |(unitsOf num den : ℚ) - num / den * 2 ^ 1074| ≤ 2 ^ (k - 54) * 2 ^ 1074 := by
  rcases Nat.eq_zero_or_pos num with rfl | hnum
  · rw [unitsOf_zero, Nat.cast_zero, zero_div, zero_mul, sub_zero, abs_zero]
    positivity
  · obtain ⟨e, hscale, hunits⟩ := exists_unitsOf hnum hden
    have hle : e ≤ k - 53 := by
      rcases hscale.low with rfl | hlow
      · omega
      · have := (zpow_lt_zpow_iff_right₀ (by norm_num)).1 (hlow.trans_lt h)
        omega
    have hunit : (2 : ℚ) ^ (e + 1074) = 2 ^ e * 2 ^ 1074 := zpow_add₀ two_ne_zero e 1074
    have hdistance := Rounding.abs_nearest_halfEven_sub_le ((num : ℚ) / den / 2 ^ e)
    have hsplit : (unitsOf num den : ℚ) - num / den * 2 ^ 1074 =
        (Rounding.nearest .halfEven ((num : ℚ) / den / 2 ^ e) - num / den / 2 ^ e) *
          (2 ^ e * 2 ^ 1074) := by
      rw [hunits, hunit, sub_mul, ← mul_assoc ((num : ℚ) / den / 2 ^ e),
        div_mul_cancel₀ _ (two_zpow_pos e).ne']
    rw [hsplit, abs_mul, abs_of_pos (show (0 : ℚ) < 2 ^ e * 2 ^ 1074 by positivity), ← mul_assoc]
    refine mul_le_mul_of_nonneg_right ?_ (by positivity)
    calc |(Rounding.nearest .halfEven ((num : ℚ) / den / 2 ^ e) : ℚ) - num / den / 2 ^ e| * 2 ^ e
        ≤ 1 / 2 * 2 ^ e := mul_le_mul_of_nonneg_right hdistance (two_zpow_pos e).le
      _ = 2 ^ (e - 1) := by rw [zpow_sub_one₀ two_ne_zero]; ring
      _ ≤ 2 ^ (k - 54) := zpow_le_zpow_right₀ one_le_two (by omega)

theorem signedUnitsOf_mono {m n : Int} (hden : 0 < den) (h : m ≤ n) :
    signedUnitsOf m den ≤ signedUnitsOf n den := by
  unfold signedUnitsOf
  split <;> split
  · exact neg_le_neg (Int.ofNat_le.2 (unitsOf_mono hden (by omega)))
  · omega
  · omega
  · exact Int.ofNat_le.2 (unitsOf_mono hden (by omega))

theorem abs_signedUnitsOf_sub_le {n k : Int} (hk : -1021 ≤ k) (hden : 0 < den)
    (h : |(n : ℚ) / den| < 2 ^ k) :
    |(signedUnitsOf n den : ℚ) - n / den * 2 ^ 1074| ≤ 2 ^ (k - 54) * 2 ^ 1074 := by
  rw [abs_div, Nat.abs_cast, ← Int.cast_abs, Int.abs_eq_natAbs, Int.cast_natCast] at h
  have hunits := abs_unitsOf_sub_le hk hden h
  unfold signedUnitsOf
  split
  · next hneg =>
    have hn : (n : ℚ) = -(n.natAbs : ℚ) := by
      rw [Nat.cast_natAbs, abs_of_neg hneg, Int.cast_neg, neg_neg]
    rw [hn, Int.cast_neg, Int.cast_natCast, neg_div, neg_mul, ← neg_sub', abs_neg]
    exact hunits
  · next hnonneg =>
    have hn : (n : ℚ) = (n.natAbs : ℚ) := by
      rw [Nat.cast_natAbs, abs_of_nonneg (not_lt.1 hnonneg)]
    rw [hn, Int.cast_natCast]
    exact hunits

end Real64

namespace Instant

variable {s t : Instant}

theorem timestamp_mono (h : s.micros ≤ t.micros) : s.timestamp ≤ t.timestamp :=
  Real64.signedUnitsOf_mono (by decide) (by omega)

/-- Less than `2 ^ 33` seconds away from the beginning of 1970: after the 17th of October 1697 and
before the 16th of March 2242. -/
def Near (t : Instant) : Prop := |t.micros - unixEpoch| < 2 ^ 33 * 1000000

instance (t : Instant) : Decidable t.Near := inferInstanceAs (Decidable (_ < _))

/-- There timestamps are less than half a microsecond off. -/
theorem Near.timestamp_lt (hs : s.Near) (ht : t.Near) (h : s.micros < t.micros) :
    s.timestamp < t.timestamp := by
  have hoff {t : Instant} (ht : t.Near) :
      |(t.timestamp : ℚ) - (t.micros - unixEpoch : Int) / (1000000 : ℕ) * 2 ^ 1074| ≤
        2 ^ (33 - 54 : Int) * 2 ^ 1074 := by
    refine Real64.abs_signedUnitsOf_sub_le (by decide) (by decide) ?_
    have hlt : ((|t.micros - unixEpoch| : Int) : ℚ) < 2 ^ 33 * 1000000 := by exact_mod_cast ht
    rw [abs_div, Nat.abs_cast, ← Int.cast_abs, div_lt_iff₀ (by norm_num)]
    exact_mod_cast hlt
  have hgap : ((s.micros - unixEpoch : Int) : ℚ) + 1 ≤ (t.micros - unixEpoch : Int) := by
    exact_mod_cast (by omega : s.micros - unixEpoch + 1 ≤ t.micros - unixEpoch)
  have hs := abs_le.1 (hoff hs)
  have ht := abs_le.1 (hoff ht)
  have hpos : (0 : ℚ) < 2 ^ 1074 := by positivity
  have hhalf : (2 : ℚ) ^ (33 - 54 : Int) = 1 / 2097152 := by norm_num
  rw [← Int.cast_lt (R := ℚ)]
  rw [hhalf, Nat.cast_ofNat] at hs ht
  generalize (2 : ℚ) ^ 1074 = u at hs ht hpos
  generalize ((s.micros - unixEpoch : Int) : ℚ) = x at hs hgap
  generalize ((t.micros - unixEpoch : Int) : ℚ) = y at ht hgap
  have hsteps := mul_le_mul_of_nonneg_right hgap hpos.le
  linarith [hs.2, ht.1]

theorem Near.timestamp_lt_iff (hs : s.Near) (ht : t.Near) :
    s.timestamp < t.timestamp ↔ s.micros < t.micros := by
  refine ⟨fun h => ?_, hs.timestamp_lt ht⟩
  by_contra hle
  exact absurd (timestamp_mono (not_lt.1 hle)) (not_le.2 h)

theorem Near.timestamp_eq_iff (hs : s.Near) (ht : t.Near) :
    s.timestamp = t.timestamp ↔ s.micros = t.micros := by
  rw [le_antisymm_iff, le_antisymm_iff, ← not_lt, ← not_lt, ← not_lt, ← not_lt,
    hs.timestamp_lt_iff ht, ht.timestamp_lt_iff hs]

end Instant

end Payroll
