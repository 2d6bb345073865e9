import Mathlib
import Payroll.Decimal.Meaning
import Payroll.Proofs.DecimalRange

/-!
The numbers that decimals denote. The order of decimals is that of their values, and the exponent of
the leading digit depends on the value only.
-/

namespace Payroll

theorem cast_pow10 (k : Nat) : (pow10 k : ℚ) = 10 ^ k := by
  rw [pow10]
  exact Nat.cast_pow 10 k

theorem pow10_pos (k : Nat) : 0 < pow10 k := Nat.pow_pos (by decide)

namespace Decimal

variable {a b d : Decimal}

theorem ten_zpow_pos (e : Int) : (0 : ℚ) < 10 ^ e := by positivity

theorem abs_value (d : Decimal) : |d.value| = d.coefficient * 10 ^ d.exponent := by
  have habs : |(d.signed : ℚ)| = d.coefficient := by
    rw [signed]
    split <;> simp
  rw [value, abs_mul, habs, abs_of_pos (ten_zpow_pos _)]

theorem isZero_iff : d.isZero = true ↔ d.coefficient = 0 := beq_iff_eq

theorem value_eq_zero : d.value = 0 ↔ d.isZero = true := by
  rw [← abs_eq_zero, abs_value, isZero_iff]
  simp [(ten_zpow_pos d.exponent).ne']

theorem digits_of_isZero (h : d.isZero = true) : d.digits = 1 := by
  rw [digits, isZero_iff.1 h, digitCount_zero]

theorem adjusted_of_isZero (h : d.isZero = true) : d.adjusted = d.exponent := by
  rw [adjusted, digits_of_isZero h]
  omega

theorem isZero_of_value_ne (h : d.value ≠ 0) : d.isZero = false := by
  rw [Bool.eq_false_iff]
  exact fun hz => h (value_eq_zero.2 hz)

theorem value_nonneg (h : d.negative = false) : 0 ≤ d.value := by
  rw [value, signed, h]
  have := ten_zpow_pos d.exponent
  simp only [Bool.false_eq_true, ↓reduceIte, Int.cast_natCast]
  positivity

theorem value_nonpos (h : d.negative = true) : d.value ≤ 0 := by
  rw [value, signed, h]
  have := ten_zpow_pos d.exponent
  simp only [↓reduceIte, Int.cast_neg, Int.cast_natCast, neg_mul, Left.neg_nonpos_iff]
  positivity

theorem value_neg_iff : d.value < 0 ↔ (d.negative && !d.isZero) = true := by
  constructor
  · intro h
    have hzero : d.isZero = false := isZero_of_value_ne h.ne
    cases hn : d.negative with
    | true => simp [hzero]
    | false => exact absurd h (value_nonneg hn).not_gt
  · intro h
    simp only [Bool.and_eq_true, Bool.not_eq_true'] at h
    refine lt_of_le_of_ne (value_nonpos h.1) fun h0 => ?_
    rw [value_eq_zero.1 h0] at h
    cases h.2

/-- A decimal is its sign and its size. -/
theorem value_eq (d : Decimal) : d.value = if d.negative then -|d.value| else |d.value| := by
  cases h : d.negative with
  | true => simp [abs_of_nonpos (value_nonpos h)]
  | false => simp [abs_of_nonneg (value_nonneg h)]

theorem value_mk_neg (n : Nat) (e : Int) :
    (⟨true, n, e⟩ : Decimal).value = -(⟨false, n, e⟩ : Decimal).value := by
  simp [value, signed]

theorem value_mk (n : Nat) (e : Int) : (⟨false, n, e⟩ : Decimal).value = n * 10 ^ e := by
  simp [value, signed]

theorem value_mk_mul_pow10 (s : Bool) (n k : Nat) (e : Int) :
    (⟨s, n * pow10 k, e⟩ : Decimal).value = (⟨s, n, e + k⟩ : Decimal).value := by
  have h : ((n * pow10 k : ℕ) : ℚ) * 10 ^ e = n * 10 ^ (e + k) := by
    rw [Nat.cast_mul, cast_pow10, zpow_add₀ (by norm_num), zpow_natCast]
    ring
  cases s <;> simp only [value_mk_neg, value_mk, h]

theorem pow_adjusted_le (h : d.isZero = false) : (10 : ℚ) ^ d.adjusted ≤ |d.value| := by
  have hne : d.coefficient ≠ 0 := by simpa [isZero] using h
  have hle : ((pow10 (d.digits - 1) : ℕ) : ℚ) ≤ d.coefficient :=
    Nat.cast_le.2 (pow10_digitCount_le hne)
  have hpos : 0 < d.digits := digitCount_pos _
  have he : d.adjusted = ((d.digits - 1 : ℕ) : Int) + d.exponent := by
    rw [adjusted]
    omega
  rw [abs_value, he, zpow_add₀ (by norm_num), zpow_natCast, ← cast_pow10]
  exact mul_le_mul_of_nonneg_right hle (ten_zpow_pos _).le

theorem abs_value_lt (d : Decimal) : |d.value| < 10 ^ (d.adjusted + 1) := by
  have hlt : (d.coefficient : ℚ) < (pow10 d.digits : ℕ) := Nat.cast_lt.2 (lt_pow10_digitCount _)
  have he : d.adjusted + 1 = (d.digits : Int) + d.exponent := by
    rw [adjusted]
    omega
  rw [abs_value, he, zpow_add₀ (by norm_num), zpow_natCast, ← cast_pow10]
  exact mul_lt_mul_of_pos_right hlt (ten_zpow_pos _)

theorem adjusted_le_iff (h : d.isZero = false) (e : Int) :
    d.adjusted ≤ e ↔ |d.value| < 10 ^ (e + 1) := by
  constructor
  · intro he
    exact (abs_value_lt d).trans_le (zpow_le_zpow_right₀ (by norm_num) (by omega))
  · intro he
    have hlt := (zpow_lt_zpow_iff_right₀ (by norm_num)).1 ((pow_adjusted_le h).trans_lt he)
    omega

theorem adjusted_eq_of_abs_value_eq (ha : a.isZero = false) (hb : b.isZero = false)
    (h : |a.value| = |b.value|) : a.adjusted = b.adjusted := by
  refine le_antisymm ?_ ?_
  · exact (adjusted_le_iff ha _).2 (h ▸ abs_value_lt b)
  · exact (adjusted_le_iff hb _).2 (h ▸ abs_value_lt a)

theorem abs_value_lt_of_adjusted_lt (hb : b.isZero = false) (h : a.adjusted < b.adjusted) :
    |a.value| < |b.value| :=
  (abs_value_lt a).trans_le ((zpow_le_zpow_right₀ (by norm_num) (by omega)).trans
    (pow_adjusted_le hb))

/-- The coefficient on a smaller exponent. -/
theorem abs_value_of_le {e : Int} (he : e ≤ d.exponent) :
    |d.value| = ((d.coefficient * pow10 (d.exponent - e).toNat : ℕ) : ℚ) * 10 ^ e := by
  have hexp : d.exponent = ((d.exponent - e).toNat : Int) + e := by omega
  rw [abs_value, Nat.cast_mul, cast_pow10, mul_assoc, ← zpow_natCast, ← zpow_add₀ (by norm_num),
    ← hexp]

theorem compare_cast (m n : Nat) (e : Int) :
    compare ((m : ℚ) * 10 ^ e) ((n : ℚ) * 10 ^ e) = compare m n := by
  rcases lt_trichotomy m n with h | h | h
  · rw [compare_lt_iff_lt.2 h, compare_lt_iff_lt]
    exact mul_lt_mul_of_pos_right (Nat.cast_lt.2 h) (ten_zpow_pos _)
  · rw [h, compare_eq_iff_eq.2 rfl, compare_eq_iff_eq.2 rfl]
  · rw [compare_gt_iff_gt.2 h, compare_gt_iff_gt]
    exact mul_lt_mul_of_pos_right (Nat.cast_lt.2 h) (ten_zpow_pos _)

theorem compareSize_eq (a b : Decimal) : compareSize a b = compare |a.value| |b.value| := by
  unfold compareSize
  split
  · next h =>
    rcases Bool.or_eq_true_iff.1 h with h | h
    · rw [isZero_iff.1 h, value_eq_zero.2 h, abs_zero]
      have hb := compare_cast 0 b.coefficient b.exponent
      rw [← hb, ← abs_value, Nat.cast_zero, zero_mul]
    · rw [isZero_iff.1 h, value_eq_zero.2 h, abs_zero]
      have ha := compare_cast a.coefficient 0 a.exponent
      rw [← ha, ← abs_value, Nat.cast_zero, zero_mul]
  · next h =>
    simp only [Bool.or_eq_true, not_or, Bool.not_eq_true] at h
    split
    · next hne =>
      rcases lt_or_gt_of_ne hne with hlt | hgt
      · rw [compare_lt_iff_lt.2 hlt, eq_comm, compare_lt_iff_lt]
        exact abs_value_lt_of_adjusted_lt h.2 hlt
      · rw [compare_gt_iff_gt.2 hgt, eq_comm, compare_gt_iff_gt]
        exact abs_value_lt_of_adjusted_lt h.1 hgt
    · rw [abs_value_of_le (min_le_left a.exponent b.exponent),
        abs_value_of_le (min_le_right a.exponent b.exponent), compare_cast]

theorem cmp_eq (a b : Decimal) : cmp a b = compare a.value b.value := by
  have hneg {d : Decimal} (h : (d.negative && !d.isZero) = true) : d.value < 0 := value_neg_iff.2 h
  have hpos {d : Decimal} (h : (d.negative && !d.isZero) = false) : 0 ≤ d.value := by
    rw [← not_lt, value_neg_iff, h]
    exact Bool.false_ne_true
  unfold cmp
  split
  · next ha hb => rw [compareSize_eq, abs_of_nonneg (hpos ha), abs_of_nonneg (hpos hb)]
  · next ha hb =>
    rw [compareSize_eq, abs_of_neg (hneg ha), abs_of_neg (hneg hb)]
    rcases lt_trichotomy a.value b.value with h | h | h
    · rw [compare_lt_iff_lt.2 h, compare_lt_iff_lt]
      exact neg_lt_neg h
    · rw [h, compare_eq_iff_eq.2 rfl, compare_eq_iff_eq.2 rfl]
    · rw [compare_gt_iff_gt.2 h, compare_gt_iff_gt]
      exact neg_lt_neg h
  · next ha hb => rw [eq_comm, compare_lt_iff_lt]; exact (hneg ha).trans_le (hpos hb)
  · next ha hb => rw [eq_comm, compare_gt_iff_gt]; exact (hneg hb).trans_le (hpos ha)

theorem lt_iff : a.lt b = true ↔ a.value < b.value := by
  rw [lt, beq_iff_eq, cmp_eq, compare_lt_iff_lt]

theorem le_iff : a.le b = true ↔ a.value ≤ b.value := by
  rw [le, bne_iff_ne, cmp_eq, Ne, compare_gt_iff_gt, not_lt]

theorem same_iff : a.same b = true ↔ a.value = b.value := by
  rw [same, beq_iff_eq, cmp_eq, compare_eq_iff_eq]

end Decimal

end Payroll
